/-
  Mnet.ClientCompleteness

  `mnet_read_response` on whatever a server sends.

  The reader gathers segments until the server closes or `max_body` and one
  buffer are in, and fails only when an error stops it or nothing came.  What
  it gathered need hold no whole head, no whole body, and not all of a body
  that is too long.
-/

import Mnet.Client
import Mnet.Lib.HttpMessage

namespace Mnet

-- ============================================================================
-- What the server sends
-- ============================================================================

/-- The segments `recv` hands over until the stream ends, and whether it ends
    with an error. -/
structure ServerStream where
  segments : List Bytes := []
  failed : Bool := false

def ServerStream.bytes (s : ServerStream) : Bytes := s.segments.flatten

/-- The bytes of one arrival: a buffer full at a time. -/
def pieces (text : Bytes) : List Bytes :=
  if text = [] then [] else text.take CLIENT_BUFFER_SIZE :: pieces (text.drop CLIENT_BUFFER_SIZE)
termination_by text.length
decreasing_by
  have hsize : 0 < CLIENT_BUFFER_SIZE := by decide
  have hpos : 0 < text.length := List.length_pos_iff.mpr ‹_›
  rw [List.length_drop]
  omega

/-- An empty arrival is the server's close. -/
def serverStream : List ClientArrival → ServerStream
  | [] => {}
  | .failed :: _ => { failed := true }
  | .interrupted :: rest => serverStream rest
  | .bytes text :: rest =>
      if text = [] then {}
      else
        { segments := pieces text ++ (serverStream rest).segments
          failed := (serverStream rest).failed }

/-- The bytes of the segments that are taken while fewer than `cap` are
    there. -/
def gathered : Nat → List Bytes → Bytes
  | _, [] => []
  | cap, seg :: segs => if cap = 0 then [] else seg ++ gathered (cap - seg.length) segs

/-- `cap` of `mnet_read_response`. -/
def gatherCap (maxBody : Nat) : Nat := (maxBody + CLIENT_BUFFER_SIZE) % SIZE_T

/-- The bytes the client receives. -/
def ServerStream.received (s : ServerStream) (maxBody : Nat) : Bytes :=
  gathered (gatherCap maxBody) s.segments

/-- An error stops the client before the cap does. -/
def ServerStream.Breaks (s : ServerStream) (maxBody : Nat) : Prop :=
  s.failed = true ∧ s.bytes.length < gatherCap maxBody

/-- All of the segments are taken, or a front part that reaches the cap. -/
theorem gathered_eq_or (cap : Nat) (segs : List Bytes) : gathered cap segs = segs.flatten ∨
    (gathered cap segs <+: segs.flatten ∧ cap ≤ (gathered cap segs).length) := by
  induction segs generalizing cap with
  | nil => exact .inl rfl
  | cons seg segs ih =>
      rw [gathered, List.flatten_cons]
      split
      · next hzero => exact .inr ⟨List.nil_prefix, Nat.le_of_eq hzero⟩
      · rcases ih (cap - seg.length) with hall | ⟨hfront, hcap⟩
        · exact .inl (congrArg (seg ++ ·) hall)
        · refine .inr ⟨(List.prefix_append_right_inj seg).mpr hfront, ?_⟩
          rw [List.length_append]
          omega

/-- The client receives all that is sent, or as much of it as the cap. -/
theorem ServerStream.received_eq_or (s : ServerStream) (maxBody : Nat) :
    s.received maxBody = s.bytes ∨
      (s.received maxBody <+: s.bytes ∧ gatherCap maxBody ≤ (s.received maxBody).length) :=
  gathered_eq_or (gatherCap maxBody) s.segments

theorem serverStream_segments_of_left {text : Bytes} (hne : text ≠ []) (rest : List ClientArrival)
    (hleft : text.drop CLIENT_BUFFER_SIZE ≠ []) :
    serverStream (.bytes text :: rest) =
      { segments := text.take CLIENT_BUFFER_SIZE ::
          (serverStream (.bytes (text.drop CLIENT_BUFFER_SIZE) :: rest)).segments
        failed := (serverStream (.bytes (text.drop CLIENT_BUFFER_SIZE) :: rest)).failed } := by
  rw [serverStream, if_neg hne, serverStream, if_neg hleft, pieces, if_neg hne, List.cons_append]

theorem serverStream_segments_of_fits {text : Bytes} (hne : text ≠ []) (rest : List ClientArrival)
    (hleft : text.drop CLIENT_BUFFER_SIZE = []) :
    serverStream (.bytes text :: rest) =
      { segments := text :: (serverStream rest).segments
        failed := (serverStream rest).failed } := by
  have hall : text.take CLIENT_BUFFER_SIZE = text :=
    List.take_of_length_le (List.drop_eq_nil_iff.mp hleft)
  rw [serverStream, if_neg hne, pieces, if_neg hne, hleft, hall, pieces, if_pos rfl]
  rfl

/-- What `recv` hands over first, and the stream that is left. -/
theorem gathered_cons {room : Nat} (hroom : 0 < room) (seg : Bytes) (segs : List Bytes) :
    gathered room (seg :: segs) = seg ++ gathered (room - seg.length) segs := by
  rw [gathered, if_neg (Nat.ne_of_gt hroom)]

/-- What the receive loop comes to on a stream. -/
def LoopEndsAt (cap : Nat) (raw : RawBuffer) (s : ServerStream) (result : Option RawBuffer) : Prop :=
  if s.failed = true ∧ raw.bytes.length + s.bytes.length < cap then result = none
  else ∃ raw', result = some raw' ∧ (raw'.bytes = [] → raw'.cap = 0) ∧
    raw'.bytes = raw.bytes ++ gathered (cap - raw.bytes.length) s.segments

/-- One segment more is one step of the loop. -/
theorem LoopEndsAt.cons {cap : Nat} {raw : RawBuffer} {seg : Bytes} {segs : List Bytes}
    {failed : Bool} {result : Option RawBuffer} (hlt : raw.bytes.length < cap)
    (h : LoopEndsAt cap (raw.append seg) ⟨segs, failed⟩ result) :
    LoopEndsAt cap raw ⟨seg :: segs, failed⟩ result := by
  have hlen : (raw.append seg).bytes.length + (ServerStream.mk segs failed).bytes.length =
      raw.bytes.length + (ServerStream.mk (seg :: segs) failed).bytes.length := by
    simp only [RawBuffer.append_bytes, ServerStream.bytes, List.flatten_cons, List.length_append]
    omega
  rw [LoopEndsAt] at h ⊢
  rw [hlen] at h
  split
  · next hbreaks => rwa [if_pos hbreaks] at h
  · next hbreaks =>
    rw [if_neg hbreaks] at h
    obtain ⟨raw', hresult, hcap, hbytes⟩ := h
    refine ⟨raw', hresult, hcap, ?_⟩
    rw [hbytes, gathered_cons (by omega), RawBuffer.append_bytes, List.append_assoc,
      List.length_append, Nat.sub_add_eq]

/-- The receive loop fails where an error comes before the cap is reached, and
    else gathers the segments up to the cap. -/
theorem readRaw_stream {cap : Nat} {arrivals : List ClientArrival} {raw : RawBuffer}
    (hraw : raw.bytes = [] → raw.cap = 0) :
    LoopEndsAt cap raw (serverStream arrivals) (readRaw cap arrivals raw) := by
  have hgrown : ∀ {raw : RawBuffer} {got : Bytes}, got ≠ [] →
      (raw.append got).bytes = [] → (raw.append got).cap = 0 := by
    intro raw got hgot hnil
    rw [RawBuffer.append_bytes, List.append_eq_nil_iff] at hnil
    exact absurd hnil.2 hgot
  fun_induction readRaw cap arrivals raw with
  | case1 raw hlt =>
      rw [LoopEndsAt]
      rw [if_neg (by simp [serverStream])]
      exact ⟨raw, rfl, hraw, (List.append_nil _).symm⟩
  | case2 raw hlt rest =>
      rw [LoopEndsAt]
      rw [if_pos ⟨rfl, hlt⟩]
  | case3 raw hlt rest ih => exact ih hraw
  | case4 raw hlt text rest got hnil =>
      have hempty : text = [] := by
        rcases List.take_eq_nil_iff.mp hnil with h | h
        · exact absurd h (by decide)
        · exact h
      rw [LoopEndsAt]
      rw [serverStream, if_pos hempty, if_neg (by simp)]
      exact ⟨raw, rfl, hraw, (List.append_nil _).symm⟩
  | case5 raw hlt text rest got left hne hleft ih =>
      have hall : got = text := List.take_of_length_le (List.drop_eq_nil_iff.mp hleft)
      rw [hall] at hne ih ⊢
      rw [serverStream_segments_of_fits hne rest hleft]
      exact (ih (hgrown hne)).cons hlt
  | case6 raw hlt text rest got left hne hleft ih =>
      -- more than one buffer: the rest of the arrival is the next segment
      have hne' : text ≠ [] := by
        rintro rfl
        exact hne rfl
      rw [serverStream_segments_of_left hne' rest hleft]
      exact (ih (hgrown hne)).cons hlt
  | case7 arrivals raw hge =>
      rw [LoopEndsAt]
      rw [if_neg (by omega), Nat.sub_eq_zero_of_le (by omega)]
      refine ⟨raw, rfl, hraw, ?_⟩
      cases (serverStream arrivals).segments with
      | nil => exact (List.append_nil _).symm
      | cons seg segs =>
          rw [gathered, if_pos rfl]
          exact (List.append_nil _).symm

-- ============================================================================
-- Heads
-- ============================================================================

/-- The text begins with a blank line of `n` bytes, the line end before it
    included. -/
def BeginsBlankLine (s : Bytes) (n : Nat) : Prop :=
  (CRLF ++ CRLF <+: s ∧ n = 4) ∨ ([LF, LF] <+: s ∧ n = 2)

/-- The body begins at `off`, behind the first blank line. -/
def BodyBegins (s : Bytes) (off : Nat) : Prop :=
  ∃ i n, BeginsBlankLine (s.drop i) n ∧ off = i + n ∧
    ∀ j < i, ∀ m, ¬ BeginsBlankLine (s.drop j) m

/-- The head holds the field line, and a line end behind it. -/
def HasFieldLine (head line : Bytes) : Prop :=
  ∃ before after, head = before ++ LF :: (line ++ after) ∧ LF ∉ line ∧
    (CRLF <+: after ∨ [LF] <+: after)

/-- The head has a Content-Length of `n`. -/
def HasContentLength (head : Bytes) (n : Nat) : Prop :=
  ∃ line name value, HasFieldLine head line ∧ HttpMessage.readField line = some (name, value) ∧
    name.map HttpMessage.lower = HttpMessage.contentLength ∧
    Numerals.read HttpMessage.decimalDigit? 10 value = some n

theorem BeginsBlankLine.unique {s : Bytes} {n m : Nat} (hn : BeginsBlankLine s n)
    (hm : BeginsBlankLine s m) : n = m := by
  have hnot : CRLF ++ CRLF <+: s → ¬ [LF, LF] <+: s := fun hcr hlf =>
    absurd (List.prefix_of_prefix_length_le hlf hcr (by decide)) (by decide)
  rcases hn with ⟨hcr, rfl⟩ | ⟨hlf, rfl⟩
  · rcases hm with ⟨-, rfl⟩ | ⟨hlf, -⟩
    · rfl
    · exact absurd hlf (hnot hcr)
  · rcases hm with ⟨hcr, -⟩ | ⟨-, rfl⟩
    · exact absurd hlf (hnot hcr)
    · rfl

theorem bodyBegins_of_beginsBlankLine {s : Bytes} {n off : Nat} (h : BeginsBlankLine s n) :
    BodyBegins s off ↔ off = n := by
  constructor
  · rintro ⟨i, m, hm, rfl, hfirst⟩
    obtain rfl : i = 0 := by
      by_contra hi
      exact hfirst 0 (Nat.pos_of_ne_zero hi) n h
    rw [Nat.zero_add]
    exact hm.unique h
  · rintro rfl
    exact ⟨0, off, h, (Nat.zero_add off).symm, fun j hj => absurd hj (Nat.not_lt_zero j)⟩

/-- Where no blank line begins the search goes on behind the byte. -/
theorem bodyBegins_cons {b : Byte} {s : Bytes} {off : Nat} (h : ∀ n, ¬ BeginsBlankLine (b :: s) n) :
    BodyBegins (b :: s) off ↔ ∃ rest, BodyBegins s rest ∧ off = rest + 1 := by
  constructor
  · rintro ⟨i, n, hn, rfl, hfirst⟩
    cases i with
    | zero => exact absurd hn (h n)
    | succ i =>
        refine ⟨i + n, ⟨i, n, hn, rfl, fun j hj m => hfirst (j + 1) (by omega) m⟩, by omega⟩
  · rintro ⟨_, ⟨i, n, hn, rfl, hfirst⟩, rfl⟩
    refine ⟨i + 1, n, hn, by omega, fun j hj m => ?_⟩
    cases j with
    | zero => exact h m
    | succ j => exact hfirst j (by omega) m

theorem findBody_eq_some_iff {s : Bytes} {i off : Nat} :
    findBody s i = some off ↔ ∃ rest, BodyBegins s rest ∧ off = i + rest := by
  fun_induction findBody s i with
  | case1 tail i =>
      have hblank : BeginsBlankLine (13 :: 10 :: 13 :: 10 :: tail) 4 :=
        .inl ⟨List.prefix_append [13, 10, 13, 10] tail, rfl⟩
      simp only [bodyBegins_of_beginsBlankLine hblank, exists_eq_left, Option.some.injEq, eq_comm]
  | case2 tail i =>
      have hblank : BeginsBlankLine (10 :: 10 :: tail) 2 :=
        .inr ⟨List.prefix_append [10, 10] tail, rfl⟩
      simp only [bodyBegins_of_beginsBlankLine hblank, exists_eq_left, Option.some.injEq, eq_comm]
  | case3 b s i hcr hlf ih =>
      have hnone : ∀ n, ¬ BeginsBlankLine (b :: s) n := by
        rintro n (⟨⟨tail, htail⟩, -⟩ | ⟨⟨tail, htail⟩, -⟩)
        · obtain ⟨rfl, rfl⟩ := List.cons.inj htail
          exact hcr tail rfl rfl
        · obtain ⟨rfl, rfl⟩ := List.cons.inj htail
          exact hlf tail rfl rfl
      rw [ih]
      constructor
      · rintro ⟨rest, hrest, rfl⟩
        exact ⟨rest + 1, (bodyBegins_cons hnone).mpr ⟨rest, hrest, rfl⟩, by omega⟩
      · rintro ⟨_, hbegins, rfl⟩
        obtain ⟨rest, hrest, rfl⟩ := (bodyBegins_cons hnone).mp hbegins
        exact ⟨rest, hrest, by omega⟩
  | case4 i =>
      refine iff_of_false (by simp) ?_
      rintro ⟨rest, ⟨j, n, hn, -⟩, -⟩
      rw [List.drop_nil] at hn
      rcases hn with ⟨h, -⟩ | ⟨h, -⟩
      · exact absurd h (by decide)
      · exact absurd h (by decide)

theorem findBody_iff {s : Bytes} {off : Nat} : findBody s 0 = some off ↔ BodyBegins s off := by
  rw [findBody_eq_some_iff]
  simp only [Nat.zero_add]
  constructor
  · rintro ⟨_, h, rfl⟩
    exact h
  · exact fun h => ⟨off, h, rfl⟩

theorem BodyBegins.le_length {s : Bytes} {off : Nat} (h : BodyBegins s off) : off ≤ s.length := by
  obtain ⟨i, n, hn, rfl, -⟩ := h
  have hcrlf : (CRLF ++ CRLF).length = 4 := rfl
  have hlf : ([LF, LF] : Bytes).length = 2 := rfl
  rcases hn with ⟨h, rfl⟩ | ⟨h, rfl⟩
  · have hlen := h.length_le
    rw [List.length_drop] at hlen
    omega
  · have hlen := h.length_le
    rw [List.length_drop] at hlen
    omega

-- ============================================================================
-- What is passed on
-- ============================================================================

theorem mnetReadResponse_stream (arrivals : List ClientArrival) (maxBody : Nat) :
    (((serverStream arrivals).Breaks maxBody ∨ (serverStream arrivals).received maxBody = []) ∧
      mnetReadResponse arrivals maxBody = none) ∨
    ((¬ (serverStream arrivals).Breaks maxBody ∧ (serverStream arrivals).received maxBody ≠ []) ∧
      mnetReadResponse arrivals maxBody =
        some (responseStatus ((serverStream arrivals).received maxBody),
          (((serverStream arrivals).received maxBody).drop
            ((findBody ((serverStream arrivals).received maxBody) 0).getD
              ((serverStream arrivals).received maxBody).length)).take maxBody)) := by
  have hloop := @readRaw_stream (gatherCap maxBody) arrivals {} fun _ => rfl
  rw [LoopEndsAt] at hloop
  rw [List.length_nil, Nat.zero_add, Nat.sub_zero, List.nil_append] at hloop
  split at hloop
  · next hbreaks =>
    refine .inl ⟨.inl hbreaks, ?_⟩
    rw [mnetReadResponse, ← gatherCap, hloop]
  · next hbreaks =>
    obtain ⟨raw, hread, hcap, hbytes⟩ := hloop
    rw [mnetReadResponse, ← gatherCap, hread]
    by_cases hnil : raw.bytes = []
    · refine .inl ⟨.inr (hbytes.symm.trans hnil), ?_⟩
      exact if_pos (hcap hnil)
    · have hne : raw.cap ≠ 0 := by
        intro hzero
        have hfits := raw.fits
        rw [hzero] at hfits
        exact hnil (List.eq_nil_of_length_eq_zero (Nat.le_zero.mp hfits))
      refine .inr ⟨⟨hbreaks, fun h => hnil (hbytes.trans h)⟩, ?_⟩
      rw [ServerStream.received, ← hbytes]
      exact if_neg hne

/-- The body of the response is longer than `max_body`: a Content-Length says
    so or, where there is none, more is sent behind the head. -/
def BodyTooLong (s : ServerStream) (maxBody off : Nat) : Prop :=
  (∃ n, HasContentLength ((s.received maxBody).take off) n ∧ maxBody < n) ∨
    ((∀ n, ¬ HasContentLength ((s.received maxBody).take off) n) ∧
      off + maxBody < s.bytes.length)

/-- What the client passes on is whole: the head came to its end, as many bytes
    were received and are passed on as a Content-Length says, and the body is
    not too long. -/
def PassesWhole (s : ServerStream) (maxBody : Nat) (body : Bytes) : Prop :=
  ∃ off, BodyBegins (s.received maxBody) off ∧
    (∀ n, HasContentLength ((s.received maxBody).take off) n →
      off + n ≤ (s.received maxBody).length ∧ body.length = n) ∧
    ¬ BodyTooLong s maxBody off

/-- What `mnet_read_response` returns is whole. -/
def NeverCuts (arrivals : List ClientArrival) (maxBody : Nat) : Prop :=
  ∀ status body, mnetReadResponse arrivals maxBody = some (status, body) →
    PassesWhole (serverStream arrivals) maxBody body

/-- Behind the blank line as many bytes are received as a Content-Length up to
    `max_body` says, or more for one of `max_body`; where there is none, at
    most `max_body` bytes are sent. -/
def CompleteResponse (s : ServerStream) (maxBody : Nat) : Prop :=
  ∃ off, BodyBegins (s.received maxBody) off ∧
    (∀ n, HasContentLength ((s.received maxBody).take off) n → n ≤ maxBody ∧
      ((s.received maxBody).length = off + n ∨
        (n = maxBody ∧ off + n ≤ (s.received maxBody).length))) ∧
    ((∀ n, ¬ HasContentLength ((s.received maxBody).take off) n) →
      s.bytes.length ≤ off + maxBody)

/-- Of a response whose body begins at `off` the rest is passed on as far as
    `max_body`. -/
theorem passesWhole_iff {s : ServerStream} {maxBody off : Nat} {body : Bytes}
    (hoff : BodyBegins (s.received maxBody) off)
    (hbody : body.length = min maxBody ((s.received maxBody).length - off)) :
    (∀ n, HasContentLength ((s.received maxBody).take off) n →
      off + n ≤ (s.received maxBody).length ∧ body.length = n) ∧ ¬ BodyTooLong s maxBody off ↔
    (∀ n, HasContentLength ((s.received maxBody).take off) n → n ≤ maxBody ∧
      ((s.received maxBody).length = off + n ∨
        (n = maxBody ∧ off + n ≤ (s.received maxBody).length))) ∧
    ((∀ n, ¬ HasContentLength ((s.received maxBody).take off) n) →
      s.bytes.length ≤ off + maxBody) := by
  have hle := hoff.le_length
  constructor
  · rintro ⟨hlength, hshort⟩
    refine ⟨fun n hn => ?_, fun hnone => ?_⟩
    · obtain ⟨hreceived, hn⟩ := hlength n hn
      omega
    · by_contra hlong
      exact hshort (.inr ⟨hnone, by omega⟩)
  · rintro ⟨hlength, hnone⟩
    refine ⟨fun n hn => ?_, ?_⟩
    · obtain ⟨hmax, hreceived⟩ := hlength n hn
      omega
    · rintro (⟨n, hn, hlong⟩ | ⟨hnot, hlong⟩)
      · have hmax := (hlength n hn).1
        omega
      · have hsent := hnone hnot
        omega

/-- The client passes off no cut response as whole exactly where an error stops
    it, nothing comes, or the response is complete. -/
theorem neverCuts_iff (arrivals : List ClientArrival) (maxBody : Nat) :
    NeverCuts arrivals maxBody ↔ (serverStream arrivals).Breaks maxBody ∨
      (serverStream arrivals).received maxBody = [] ∨
      CompleteResponse (serverStream arrivals) maxBody := by
  rcases mnetReadResponse_stream arrivals maxBody with ⟨hfails, hread⟩ | ⟨hreads, hread⟩
  · -- nothing is returned
    refine iff_of_true ?_ ?_
    · intro status body hsome
      rw [hread] at hsome
      simp at hsome
    · exact hfails.imp_right .inl
  · rw [or_iff_right hreads.1, or_iff_right hreads.2]
    have hlength : ∀ {off}, BodyBegins ((serverStream arrivals).received maxBody) off →
        ((((serverStream arrivals).received maxBody).drop
          ((findBody ((serverStream arrivals).received maxBody) 0).getD
            ((serverStream arrivals).received maxBody).length)).take maxBody).length =
          min maxBody (((serverStream arrivals).received maxBody).length - off) := by
      intro off hoff
      rw [findBody_iff.mpr hoff, Option.getD_some, List.length_take, List.length_drop]
    constructor
    · intro hnever
      obtain ⟨off, hoff, hwhole⟩ := hnever _ _ hread
      exact ⟨off, hoff, (passesWhole_iff hoff (hlength hoff)).mp hwhole⟩
    · rintro ⟨off, hoff, hcomplete⟩ status body hsome
      rw [hread] at hsome
      obtain ⟨-, rfl⟩ := Prod.mk.inj (Option.some.inj hsome)
      exact ⟨off, hoff, (passesWhole_iff hoff (hlength hoff)).mpr hcomplete⟩

/-- A response with six bytes of body. -/
def sixByteResponse : Bytes := ascii "HTTP/1.1 200 OK\r\nContent-Length: 6\r\n\r\nabcdef"

theorem hasContentLength_sixByteResponse : HasContentLength (sixByteResponse.take 38) 6 :=
  ⟨ascii "Content-Length: 6", ascii "Content-Length", ascii "6",
    ⟨ascii "HTTP/1.1 200 OK\r", CRLF ++ CRLF, by decide +kernel, by decide, by decide⟩,
    by decide +kernel, by decide, by decide⟩

/-- Where three bytes are allowed the first three are passed on. -/
theorem not_neverCuts :
    ¬ ∀ (arrivals : List ClientArrival) (maxBody : Nat), NeverCuts arrivals maxBody := by
  intro h
  have hstream : serverStream [.bytes sixByteResponse] = { segments := [sixByteResponse] } := by
    rw [serverStream_segments_of_fits (by decide) _ (by decide +kernel)]
    rfl
  have hreceived : (serverStream [.bytes sixByteResponse]).received 3 = sixByteResponse := by
    rw [hstream]
    decide +kernel
  rcases mnetReadResponse_stream [.bytes sixByteResponse] 3 with ⟨hfails, -⟩ | ⟨-, hread⟩
  · rw [hreceived, hstream] at hfails
    rcases hfails with hbreaks | hnil
    · exact absurd hbreaks.1 (by decide)
    · exact absurd hnil (by decide)
  · obtain ⟨off, hoff, hlength, -⟩ := h _ _ _ _ hread
    rw [hreceived] at hoff hlength
    obtain rfl : 38 = off := by
      have hfind : findBody sixByteResponse 0 = some 38 := by decide +kernel
      exact Option.some.inj (hfind.symm.trans (findBody_iff.mpr hoff))
    have hsix := (hlength 6 hasContentLength_sixByteResponse).2
    rw [List.length_take] at hsix
    omega

end Mnet
