/-
  Mnet.KeepAliveFraming

  A kept-alive connection that carries one request after the other: which of
  them reach `dispatch`.

  `FramedFrom` says that the requests parsed are the requests sent, each from
  its first byte on.  `framingSafe` is the condition on the segments for that.
  `AtRequest` is what holds between two passes as long as the framing is right;
  the pass over one request keeps it exactly when the bytes behind the head are
  such as the server's buffer handling provides for.
-/

import Mnet.Deadlines
import Mnet.HeadReading
import Mnet.Intakes
import Mnet.RequestRoundTrip

namespace Mnet

open Search (OccursAt)

-- ============================================================================
-- Framing
-- ============================================================================

/-- The requests parsed are the ones sent, the first of them from the byte
    number `start` on. -/
def FramedFrom : List WireRequest → Nat → List Intake → Prop
  | [], _, [] => True
  | r :: rs, start, x :: xs =>
      x.offset = start ∧ x.code = .ok ∧ r.DecodedAs x.buffer x.request ∧
        FramedFrom rs (start + r.render.length) xs
  | _, _, _ => False

/-- The requests passed to `dispatch` are the ones sent, and each of them was
    parsed from its first byte on. -/
def Framed (rs : List WireRequest) (log : List Event) : Prop :=
  FramedFrom rs 0 (intakes log) ∧ dispatched log = (intakes log).map (·.request)

/-- A request that keeps the connection and fits the buffer. -/
structure WireRequest.KeepsAlive (r : WireRequest) (app : MnetApp) : Prop where
  keepAlive : r.headers.any isKeepAlive = true
  noNul : (0 : Byte) ∉ r.body
  fits : r.render.length ≤ bufferRoom
  bodyLimit : r.body.length ≤ app.bodyLimit

def streamOf (arrivals : List Arrival) : Bytes := arrivals.flatMap Arrival.bytes

/-- The number of bytes received when the head of `r`, the request at `start`,
    is complete, given that `got` were received before: the segment that
    completes it comes in whole, unless the buffer is too short. -/
def headReceived (arrivals : List Arrival) (r : WireRequest) (start got : Nat) : Nat :=
  if got ≤ start then
    min (start + bufferRoom) (segmentEnd arrivals (start + r.head.length - 1))
  else got

/-- The bytes behind the head that are received with it. -/
def behindHead (arrivals : List Arrival) (r : WireRequest) (start got : Nat) : Bytes :=
  ((streamOf arrivals).take (headReceived arrivals r start got)).drop (start + r.head.length)

/-- Whenever the head of a request is complete, the bytes received behind it
    are bytes of its body without a CRLFCRLF, or the request has no body and
    they hold a CRLFCRLF: the head of the next request. -/
def framingSafe (arrivals : List Arrival) : List WireRequest → Nat → Nat → Bool
  | [], _, _ => true
  | r :: rs, start, got =>
      let extra := behindHead arrivals r start got
      if (strstr extra crlfcrlf).isSome then
        r.body.isEmpty && framingSafe arrivals rs (start + r.head.length)
          (headReceived arrivals r start got)
      else
        decide (extra.length ≤ r.body.length) &&
          framingSafe arrivals rs (start + r.render.length) (start + r.render.length)

-- ============================================================================
-- The head in the buffer
-- ============================================================================

theorem WireRequest.strstr_head (r : WireRequest) (extra : Bytes) :
    strstr (r.head ++ extra) crlfcrlf = some r.headEnd := by
  obtain ⟨-, h⟩ | ⟨h, -⟩ := endOfHeaders_cases (r.endOfHeaders_head extra)
  · exact h
  · exact absurd h (by decide)

/-- The first blank line of a rendered request is the one that ends its
    head. -/
theorem WireRequest.blankLineAt_head (r : WireRequest) (more : Bytes) :
    BlankLineAt (r.head ++ more) r.head.length := by
  intro p hp
  constructor
  · intro hblank
    by_contra hlt
    have hp' : p <+: r.head :=
      List.prefix_of_prefix_length_le hp (List.prefix_append _ _) (by omega)
    obtain ⟨t, ht⟩ := hp'
    have h0 : (0 : Byte) ∉ p := fun h => r.noNul_head (ht ▸ List.mem_append_left _ h)
    have hcstr := cstr_of_noNul h0
    have hlen := r.length_head
    rw [hasBlankLine, Bool.or_eq_true] at hblank
    rcases hblank with h | h
    · obtain ⟨i, hi⟩ := Option.isSome_iff_exists.mp h
      rw [strstr, hcstr] at hi
      have hle := Search.find_le_length hi
      have hhead := r.strstr_head []
      rw [strstr, List.append_nil, cstr_of_noNul r.noNul_head, ← ht,
        Search.find_append_of_some hi] at hhead
      have hfour : crlfcrlf.length = 4 := rfl
      have heq := Option.some.inj hhead
      omega
    · obtain ⟨i, hi⟩ := Option.isSome_iff_exists.mp h
      rw [strstr, hcstr] at hi
      have hle := Search.find_le_length hi
      obtain ⟨hi', hocc, -⟩ := Search.find_eq_some_iff.mp hi
      have htwo : lflf.length = 2 := rfl
      have hbound : i + 1 < (renderLines r.lines).length + 2 := by
        have hhead : r.head.length = (renderLines r.lines).length + 2 := by
          rw [WireRequest.head, List.length_append]
          rfl
        omega
      refine not_occursAt_lflf r.plainLines [] hbound ?_
      have h := hocc.append hi' t
      rwa [ht, WireRequest.head, ← List.append_nil CRLF] at h
  · intro hle
    obtain ⟨extra, rfl⟩ : r.head <+: p :=
      List.prefix_of_prefix_length_le (List.prefix_append _ _) hp hle
    rw [hasBlankLine, r.strstr_head]
    rfl

/-- What is kept for the next pass. -/
theorem WireRequest.nextBuffer_head (r : WireRequest) (extra : Bytes) :
    nextBuffer (r.head ++ extra) =
      if (strstr extra crlfcrlf).isSome then extra else [] := by
  have hdrop : (r.head ++ extra).drop (r.headEnd + 4) = extra := by
    rw [← r.length_head, List.drop_left]
  simp only [nextBuffer, r.endOfHeaders_head, hdrop]
  by_cases hsome : (strstr extra crlfcrlf).isSome
  · have hne : extra ≠ [] := by
      rintro rfl
      exact absurd hsome (by decide)
    have hpos := List.length_pos_iff.mpr hne
    rw [if_pos ⟨by rw [List.length_append, r.length_head]; omega, hsome⟩, if_pos hsome]
  · rw [if_neg (fun h => hsome h.2), if_neg hsome]

-- ============================================================================
-- One pass
-- ============================================================================

/-- Between two passes: the buffer and what is still to come are the requests
    `rs`, the first of which is number `start` of the stream's bytes; a buffer
    that is not empty holds a head. -/
structure AtRequest (arrivals : List Arrival) (rs : List WireRequest) (start : Nat)
    (buffer : Bytes) (conn : Conn) : Prop where
  pending : buffer ++ conn.stream = rs.flatMap WireRequest.render
  position : (streamOf arrivals).drop start = rs.flatMap WireRequest.render
  consumed : conn.consumed = start + buffer.length
  offset : (conn.beginPass buffer).start = start
  whole : buffer = [] ∨ (strstr buffer crlfcrlf).isSome
  delivers : conn.Delivers conn.stream.length
  ends : ∀ i, conn.consumed + segmentEnd conn.arrivals i = segmentEnd arrivals (conn.consumed + i)

theorem behindHead_eq {arrivals : List Arrival} {r : WireRequest} {start got : Nat}
    {extra : Bytes} (more : Bytes)
    (hposition : (streamOf arrivals).drop start = r.head ++ extra ++ more)
    (hreceived : headReceived arrivals r start got = start + (r.head ++ extra).length) :
    behindHead arrivals r start got = extra := by
  rw [behindHead, hreceived, ← List.drop_drop, List.drop_take, Nat.add_sub_cancel_left, hposition,
    List.take_left, List.drop_left]

/-- The head of the next request arrives. -/
theorem AtRequest.readRequest {arrivals : List Arrival} {r : WireRequest} {rs : List WireRequest}
    {start : Nat} {buffer : Bytes} {conn : Conn} (h : AtRequest arrivals (r :: rs) start buffer conn)
    {app : MnetApp} {keepAlive : Bool} (hfits : r.render.length ≤ bufferRoom)
    (hexp : .expired ∉ (readRequest app keepAlive buffer conn).2.2.log) :
    ∃ extra conn' got, readRequest app keepAlive buffer conn = (true, r.head ++ extra, conn') ∧
      extra = behindHead arrivals r start conn.consumed ∧
      (conn.beginPass buffer).Received got conn' ∧
      extra ++ conn'.stream = r.body ++ rs.flatMap WireRequest.render ∧
      conn'.consumed = start + (r.head ++ extra).length ∧
      headReceived arrivals r start conn.consumed = conn'.consumed := by
  have hpending : buffer ++ conn.stream = r.head ++ (r.body ++ rs.flatMap WireRequest.render) := by
    rw [h.pending, List.flatMap_cons, WireRequest.render, List.append_assoc]
  have hblank := r.blankLineAt_head (r.body ++ rs.flatMap WireRequest.render)
  rw [← hpending] at hblank
  have hhead : r.head.length ≤ bufferRoom := by
    rw [WireRequest.render, List.length_append] at hfits
    omega
  obtain rfl | hsome := h.whole
  · have hstart : conn.consumed = start := h.consumed
    have hread : Mnet.readRequest app keepAlive [] conn =
        readHead (conn.beginPass []) (conn.nowMs + requestTimeout app keepAlive) [] := by
      simp [Mnet.readRequest]
    rw [hread] at hexp ⊢
    have hlen : r.head.length ≤ conn.stream.length := by
      rw [List.nil_append] at hpending
      rw [hpending, List.length_append]
      omega
    have hnone : (conn.beginPass []).NoExpiry
        (readHead (conn.beginPass []) (conn.nowMs + requestTimeout app keepAlive) []).2.2 :=
      Conn.noExpiry_of_not_mem hexp
    have hblank' : BlankLineAt ([] ++ (conn.beginPass []).stream) r.head.length := hblank
    obtain ⟨got, conn', hgot, hrecv, hreach⟩ := readHead_delivered hblank'
      (by rw [r.length_head]; exact Nat.succ_pos _) hhead (h.delivers.mono hlen) hnone
    have hstream : conn.stream = got ++ conn'.stream := hrecv.stream
    have hdone := @readHead_blankLine (conn.beginPass [])
      (conn.nowMs + requestTimeout app keepAlive) []
    rw [hgot, List.nil_append] at hdone
    have hle := (hblank got ⟨conn'.stream, by rw [← hstream]; rfl⟩).mp (hdone rfl)
    rw [List.nil_append, hstream] at hpending
    obtain ⟨extra, rfl, hrest⟩ := split_of_append_eq hpending hle
    have hconsumed : conn'.consumed = start + (r.head ++ extra).length := by
      rw [hrecv.consumed, ← hstart]
      rfl
    have hreceived : headReceived arrivals r start conn.consumed = conn'.consumed := by
      have hends : conn.consumed + segmentEnd (conn.beginPass []).arrivals (r.head.length - 1) =
          segmentEnd arrivals (conn.consumed + (r.head.length - 1)) :=
        h.ends (r.head.length - 1)
      have hpos : 0 < r.head.length := by
        rw [r.length_head]
        omega
      have hidx : start + r.head.length - 1 = start + (r.head.length - 1) := by omega
      rw [List.length_nil, Nat.sub_zero] at hreach
      rw [headReceived, if_pos (by omega), hidx, ← hstart, ← hends, hconsumed]
      omega
    refine ⟨extra, conn', _, hgot, ?_, hrecv, hrest, hconsumed, hreceived⟩
    refine (behindHead_eq conn'.stream ?_ (by rw [hreceived, hconsumed])).symm
    rw [h.position, ← h.pending, List.nil_append, hstream]
  · have hdone : hasBlankLine buffer = true := by
      rw [hasBlankLine, hsome]
      rfl
    have hne : buffer ≠ [] := by
      rintro rfl
      exact absurd hsome (by decide)
    have hle := (hblank buffer (List.prefix_append _ _)).mp hdone
    obtain ⟨extra, rfl, hrest⟩ := split_of_append_eq hpending hle
    have hpos := List.length_pos_iff.mpr hne
    have hreceived : headReceived arrivals r start conn.consumed = conn.consumed := by
      rw [headReceived, if_neg (by have hc := h.consumed; omega)]
    refine ⟨extra, _, [], ?_, ?_, .refl _, hrest, h.consumed, hreceived⟩
    · rw [Mnet.readRequest, if_pos ⟨hne, hdone⟩]
    · refine (behindHead_eq conn.stream ?_ (by rw [hreceived, h.consumed])).symm
      rw [h.position, ← h.pending]

/-- What the pass over the request `r`, parsed with `extra` behind its head,
    leaves: what was not in the buffer of its body is taken off the stream. -/
structure Passed (arrivals : List Arrival) (r : WireRequest) (rs : List WireRequest) (start : Nat)
    (conn : Conn) (extra : Bytes) (req : ParsedRequest) (conn' : Conn) : Prop where
  intakes : intakes conn'.log = intakes conn.log ++ [⟨start, r.head ++ extra, .ok, req⟩]
  decoded : r.DecodedAs (r.head ++ extra) req
  behind : behindHead arrivals r start conn.consumed = extra
  received : headReceived arrivals r start conn.consumed = start + (r.head.length + extra.length)
  bytes : extra ++ (r.body.drop extra.length ++ conn'.stream) =
    r.body ++ rs.flatMap WireRequest.render
  consumed : conn'.consumed =
    start + (r.head.length + extra.length) + (r.body.length - extra.length)
  offset : conn'.start =
    start + (r.head.length + extra.length - (nextBuffer (r.head ++ extra)).length)
  delivers : conn'.Delivers conn'.stream.length
  ends : ∀ i, conn'.consumed + segmentEnd conn'.arrivals i =
    segmentEnd arrivals (conn'.consumed + i)

/-- The pass over a request: it is parsed at its place and dispatched. -/
theorem AtRequest.clientStep {arrivals : List Arrival} {r : WireRequest} {rs : List WireRequest}
    {start : Nat} {buffer : Bytes} {conn : Conn} (h : AtRequest arrivals (r :: rs) start buffer conn)
    {app : MnetApp} {keepAlive : Bool} (hr : r.KeepsAlive app)
    (hexp : .expired ∉ (clientStep app keepAlive buffer conn).2.log) :
    ∃ extra req conn',
      clientStep app keepAlive buffer conn = (some (nextBuffer (r.head ++ extra)), conn') ∧
      Passed arrivals r rs start conn extra req conn' := by
  -- the log only grows, so that no receive loop of the pass gave up
  have hexp₁ : .expired ∉ (Mnet.readRequest app keepAlive buffer conn).2.2.log :=
    fun hmem => hexp ((clientStep_isPrefix app keepAlive buffer conn).subset hmem)
  obtain ⟨extra, conn₁, got, hread, hextra, hrecv, hrest, hconsumed, hreceived⟩ :=
    h.readRequest hr.fits hexp₁
  have hstep := clientStep_of_readRequest hread
  have hexp₂ : .expired ∉ (parseRequest conn₁ (r.head ++ extra) (r.head ++ extra).length
      app.bodyLimit (requestTimeout app keepAlive)).2.2.log := by
    intro hmem
    rw [hstep] at hexp
    exact hexp ((serveRequest_isPrefix app conn₁ _ _).subset hmem)
  have hdel₁ : conn₁.Delivers conn₁.stream.length := by
    have hall := hrecv.delivers conn.stream.length h.delivers
    have hlen : got.length + conn₁.stream.length = conn.stream.length := hrecv.length_le
    rwa [← hlen, Nat.add_sub_cancel_left] at hall
  have hshort : r.body.length - extra.length ≤ conn₁.stream.length := by
    have hlen := congrArg List.length hrest
    rw [List.length_append, List.length_append] at hlen
    omega
  have hint : r.body.length < 2 ^ 32 := by
    have hfits := hr.fits
    have hroom : bufferRoom = 8191 := rfl
    rw [WireRequest.render, List.length_append] at hfits
    omega
  obtain ⟨req, conn₂, hparse, hdecoded, -, hbody⟩ := r.parseRequest_render hrest hr.bodyLimit hint
    (hdel₁.mono hshort) (Conn.noExpiry_of_not_mem hexp₂)
  obtain ⟨code, parsed, conn₃, hparse', hcases⟩ :=
    serveRequest_cases app conn₁ (requestTimeout app keepAlive) (r.head ++ extra)
  rw [hparse] at hparse'
  cases hparse'
  obtain ⟨hbad, -⟩ | ⟨-, hserve⟩ := hcases
  · exact absurd rfl hbad
  · have hstart : conn₁.start = start := hrecv.start.trans h.offset
    have hkeep : req.keepAlive = true := hdecoded.keepAlive.trans hr.keepAlive
    rw [hkeep, if_pos rfl, hstart] at hserve
    have hall := hrecv.trans hbody
    obtain ⟨response, heq⟩ := serveParsed_eq app
      (conn₂.emit (.parsed start (r.head ++ extra) .ok req)) (r.head ++ extra) req
    rw [heq] at hserve
    refine ⟨extra, req, _, hstep.trans hserve,
      { intakes := ?_, decoded := hdecoded, behind := hextra.symm, received := ?_, bytes := ?_
        consumed := ?_, offset := ?_, delivers := ?_, ends := ?_ }⟩
    · have hintakes : Mnet.intakes conn₂.log = Mnet.intakes conn.log := by
        rw [hall.intakes, Conn.beginPass, Conn.emit, intakes_append]
        exact List.append_nil _
      rw [Conn.advance, Conn.emit, intakes_append, intakes_append, hintakes, intakes_cons,
        intakes_cons, (intakes_sends _).1]
      exact List.append_nil _
    · rw [hreceived, hconsumed, List.length_append]
    · have hstream : conn₁.stream = r.body.drop extra.length ++ conn₂.stream := hbody.stream
      rw [← hrest, hstream]
      rfl
    · have hlen : conn₂.consumed = conn₁.consumed + (r.body.length - extra.length) := by
        rw [hbody.consumed, List.length_drop]
      rw [← List.length_append, ← hconsumed, ← hlen]
      rfl
    · have hsame : conn₂.start = start := hall.start.trans h.offset
      rw [← List.length_append, ← hsame]
      rfl
    · have hdel₂ := hbody.delivers _ hdel₁
      rwa [← hbody.length_le, Nat.add_sub_cancel_left] at hdel₂
    · intro i
      have hends := hall.ends i
      have hcount : conn₂.consumed = conn.consumed + (got ++ r.body.drop extra.length).length :=
        hall.consumed
      have hfirst := h.ends ((got ++ r.body.drop extra.length).length + i)
      show conn₂.consumed + segmentEnd conn₂.arrivals i = segmentEnd arrivals (conn₂.consumed + i)
      rw [hcount, Nat.add_assoc, Nat.add_assoc, ← hfirst, hends]
      rfl

-- ============================================================================
-- The whole connection
-- ============================================================================

theorem FramedFrom.head {rs : List WireRequest} {start : Nat} {xs : List Intake}
    (h : FramedFrom rs start xs) : (rs = [] ↔ xs = []) ∧ ∀ x ∈ xs.head?, x.offset = start := by
  cases rs with
  | nil =>
      cases xs with
      | nil => simp
      | cons x xs => exact absurd h id
  | cons r rs =>
      cases xs with
      | nil => exact absurd h id
      | cons x xs => exact ⟨by simp, fun y hy => Option.some.inj hy ▸ h.1⟩

theorem FramedFrom.codes {rs : List WireRequest} {start : Nat} {xs : List Intake}
    (h : FramedFrom rs start xs) : ∀ x ∈ xs, x.code = .ok := by
  induction xs generalizing rs start with
  | nil => simp
  | cons x xs ih =>
      cases rs with
      | nil => exact absurd h id
      | cons r rs =>
          rintro y hy
          rcases List.mem_cons.mp hy with rfl | hy
          · exact h.2.1
          · exact ih h.2.2.2 y hy

/-- Nothing left, nothing parsed. -/
theorem AtRequest.handleLoop_nil {arrivals : List Arrival} {start : Nat} {buffer : Bytes}
    {conn : Conn} (h : AtRequest arrivals [] start buffer conn) (app : MnetApp) (keepAlive : Bool) :
    intakes (handleLoop app keepAlive buffer conn).log = intakes conn.log := by
  obtain ⟨rfl, hstream⟩ : buffer = [] ∧ conn.stream = [] := by
    simpa using h.pending
  obtain ⟨got, hrecv, hbuf⟩ := readRequest_received app keepAlive [] conn
  have hdone := @readRequest_blankLine app keepAlive [] conn
  have hgot : got = [] := by
    have h' : conn.stream = got ++ (Mnet.readRequest app keepAlive [] conn).2.2.stream :=
      hrecv.stream
    rw [hstream] at h'
    exact (List.append_eq_nil_iff.mp h'.symm).1
  have hsame := hrecv.intakes
  rcases hread : Mnet.readRequest app keepAlive [] conn with ⟨ok, buffer', conn'⟩
  rw [hread] at hbuf hdone hsame
  obtain rfl : buffer' = [] := by rw [hgot] at hbuf; exact hbuf
  cases ok with
  | true => exact absurd (hdone rfl) (show ¬ hasBlankLine [] = true by decide)
  | false =>
      have hstep : Mnet.clientStep app keepAlive [] conn = (none, conn') := by
        simp only [Mnet.clientStep, hread]
        rfl
      rw [handleLoop_none hstep, hsame, Conn.beginPass, Conn.emit, intakes_append]
      exact List.append_nil _

section Passed

variable {arrivals : List Arrival} {r : WireRequest} {rs : List WireRequest} {start : Nat}
  {buffer extra : Bytes} {conn conn' : Conn} {req : ParsedRequest}

theorem length_render (r : WireRequest) : r.render.length = r.head.length + r.body.length := by
  rw [WireRequest.render, List.length_append]

theorem AtRequest.position_next (h : AtRequest arrivals (r :: rs) start buffer conn) :
    (streamOf arrivals).drop (start + r.render.length) = rs.flatMap WireRequest.render := by
  rw [← List.drop_drop, h.position, List.flatMap_cons, List.drop_left]

theorem ne_nil_of_isSome (h : (strstr extra crlfcrlf).isSome) : extra ≠ [] := by
  rintro rfl
  exact absurd h (by decide)

/-- Bytes kept behind a request without a body: the next request starts with
    them. -/
theorem Passed.atRequest_kept (hp : Passed arrivals r rs start conn extra req conn')
    (h : AtRequest arrivals (r :: rs) start buffer conn)
    (hsome : (strstr extra crlfcrlf).isSome) (hbody : r.body = []) :
    AtRequest arrivals rs (start + r.render.length) extra conn' := by
  have hlen := length_render r
  have hconsumed := hp.consumed
  have hoffset := hp.offset
  rw [r.nextBuffer_head, if_pos hsome] at hoffset
  rw [hbody, List.length_nil] at hlen hconsumed
  exact
    { pending := by simpa [hbody] using hp.bytes
      position := h.position_next
      consumed := by omega
      offset := by
        rw [Conn.beginPass, if_neg (ne_nil_of_isSome hsome)]
        show conn'.start = _
        omega
      whole := .inr hsome
      delivers := hp.delivers
      ends := hp.ends }

/-- Only bytes of the body are behind the head: the next request starts on the
    stream. -/
theorem Passed.atRequest_empty (hp : Passed arrivals r rs start conn extra req conn')
    (h : AtRequest arrivals (r :: rs) start buffer conn) (hle : extra.length ≤ r.body.length) :
    AtRequest arrivals rs (start + r.render.length) [] conn' := by
  have hlen := length_render r
  have hconsumed : conn'.consumed = start + r.render.length := by
    have h := hp.consumed
    omega
  obtain ⟨rest, hbody, hrest⟩ := split_of_append_eq hp.bytes.symm hle
  rw [hbody, List.drop_left] at hrest
  exact
    { pending := (List.append_cancel_left hrest).symm
      position := h.position_next
      consumed := hconsumed
      offset := hconsumed
      whole := .inl rfl
      delivers := hp.delivers
      ends := hp.ends }

/-- The next request would have to start where the server does not look for
    it. -/
theorem not_framedFrom_of_offset {app : MnetApp} {keepAlive : Bool} {next : Bytes}
    (hoffset : (conn'.beginPass next).start ≠ start) {xs : List Intake}
    (hxs : intakes (handleLoop app keepAlive next conn').log = intakes conn'.log ++ xs)
    (hne : rs ≠ [] ∨ xs ≠ []) : ¬ FramedFrom rs start xs := by
  intro hframed
  obtain ⟨hnil, hhead⟩ := hframed.head
  obtain ⟨es, hlog, hfirst, -⟩ := handleLoop_intakes app keepAlive next conn'
  rw [hlog, intakes_append] at hxs
  have hes : intakes es = xs := List.append_cancel_left hxs
  rw [hes] at hfirst
  cases xs with
  | nil =>
      rcases hne with hne | hne
      · exact hne (hnil.mpr rfl)
      · exact hne rfl
  | cons x xs => exact hoffset ((hfirst x rfl).symm.trans (hhead x rfl))

end Passed

/-- From any request on: what is parsed is what was sent exactly when the bytes
    behind the heads are safe. -/
theorem AtRequest.handleLoop_framed {arrivals : List Arrival} {rs : List WireRequest}
    {start : Nat} {buffer : Bytes} {conn : Conn} (h : AtRequest arrivals rs start buffer conn)
    {app : MnetApp} {keepAlive : Bool} (hrs : ∀ r ∈ rs, r.KeepsAlive app)
    (hexp : .expired ∉ (handleLoop app keepAlive buffer conn).log) :
    ∃ xs, intakes (handleLoop app keepAlive buffer conn).log = intakes conn.log ++ xs ∧
      (FramedFrom rs start xs ↔ framingSafe arrivals rs start conn.consumed = true) := by
  induction rs generalizing start buffer conn keepAlive with
  | nil =>
      refine ⟨[], by rw [h.handleLoop_nil, List.append_nil], ?_⟩
      simp [FramedFrom, framingSafe]
  | cons r rs ih =>
      have hrest := fun r' hr' => hrs r' (List.mem_cons_of_mem r hr')
      obtain ⟨extra, req, conn', hstep, hp⟩ := h.clientStep (hrs r (List.mem_cons_self ..))
        (fun hmem => hexp ((clientStep_isPrefix_handleLoop app keepAlive buffer conn).subset hmem))
      rw [handleLoop_some hstep] at hexp ⊢
      obtain ⟨es, hlog, -⟩ := handleLoop_intakes app true (nextBuffer (r.head ++ extra)) conn'
      have hxs : intakes (handleLoop app true (nextBuffer (r.head ++ extra)) conn').log =
          intakes conn'.log ++ intakes es := by
        rw [hlog, intakes_append]
      -- once the first request is right, the others decide
      refine ⟨⟨start, r.head ++ extra, .ok, req⟩ :: intakes es, ?_, ?_⟩
      · rw [hxs, hp.intakes, List.append_assoc]
        rfl
      have hcons : FramedFrom (r :: rs) start (⟨start, r.head ++ extra, .ok, req⟩ :: intakes es) ↔
          FramedFrom rs (start + r.render.length) (intakes es) :=
        ⟨fun h => h.2.2.2, fun h => ⟨rfl, rfl, hp.decoded, h⟩⟩
      have hlen := length_render r
      have hconsumed := hp.consumed
      rw [hcons]
      simp only [framingSafe, hp.behind, hp.received]
      rw [r.nextBuffer_head] at hexp hxs
      by_cases hsome : (strstr extra crlfcrlf).isSome
      · rw [if_pos hsome] at hexp hxs ⊢
        by_cases hbody : r.body = []
        · obtain ⟨xs, hxs', hiff⟩ := ih (hp.atRequest_kept h hsome hbody) hrest hexp
          obtain rfl : intakes es = xs := List.append_cancel_left (hxs.symm.trans hxs')
          rw [hbody, List.length_nil] at hlen hconsumed
          have hcount : start + (r.head.length + extra.length) = conn'.consumed := by omega
          rw [hiff, hbody, hlen, hcount]
          simp
        · have hnot : ¬ FramedFrom rs (start + r.render.length) (intakes es) := by
            have hne := ne_nil_of_isSome hsome
            have hblank : hasBlankLine extra = true := by
              rw [hasBlankLine, hsome]
              rfl
            refine not_framedFrom_of_offset ?_ hxs
              (.inr (handleLoop_intakes_ne_nil hne hblank hxs))
            have hoffset := hp.offset
            have hpos := List.length_pos_iff.mpr hbody
            rw [r.nextBuffer_head, if_pos hsome] at hoffset
            rw [Conn.beginPass, if_neg hne]
            show conn'.start ≠ _
            omega
          simp [hnot, hbody]
      · rw [if_neg hsome] at hexp hxs ⊢
        by_cases hle : extra.length ≤ r.body.length
        · have hnext := hp.atRequest_empty h hle
          obtain ⟨xs, hxs', hiff⟩ := ih hnext hrest hexp
          obtain rfl : intakes es = xs := List.append_cancel_left (hxs.symm.trans hxs')
          have hcount : conn'.consumed = start + r.render.length := hnext.consumed
          rw [hiff, hcount]
          simp [hle]
        · have hnot : ¬ FramedFrom rs (start + r.render.length) (intakes es) := by
            refine not_framedFrom_of_offset ?_ hxs (.inl ?_)
            · rw [Conn.beginPass, if_pos rfl]
              show conn'.consumed ≠ _
              omega
            · rintro rfl
              have hbytes := congrArg List.length hp.bytes
              simp only [List.length_append, List.flatMap_nil, List.length_nil] at hbytes
              omega
          simp [hnot, hle]

/-- The first pass. -/
theorem atRequest_opened {rs : List WireRequest} {arrivals : List Arrival}
    (hstream : streamOf arrivals = rs.flatMap WireRequest.render)
    (hdel : delivers arrivals (streamOf arrivals).length = true) (clock : Nat → Int)
    (world : Nat → World) : AtRequest arrivals rs 0 [] (.opened arrivals clock world) where
  pending := hstream
  position := hstream
  consumed := rfl
  offset := rfl
  whole := .inl rfl
  delivers := hdel
  ends i := by
    show 0 + segmentEnd arrivals i = segmentEnd arrivals (0 + i)
    rw [Nat.zero_add, Nat.zero_add]

/-- A kept-alive connection is framed as it was sent exactly when the bytes
    received behind the heads are safe. -/
theorem framed_iff_framingSafe (app : MnetApp) (rs : List WireRequest) (arrivals : List Arrival)
    (clock : Nat → Int) (world : Nat → World) (hrs : ∀ r ∈ rs, r.KeepsAlive app)
    (hstream : streamOf arrivals = rs.flatMap WireRequest.render)
    (hdel : delivers arrivals (streamOf arrivals).length = true)
    (hexp : .expired ∉ (mnetHandleClient app (.opened arrivals clock world)).log) :
    Framed rs (mnetHandleClient app (.opened arrivals clock world)).log ↔
      framingSafe arrivals rs 0 0 = true := by
  obtain ⟨xs, hxs, hiff⟩ :=
    (atRequest_opened hstream hdel clock world).handleLoop_framed hrs hexp
  obtain ⟨es, hlog, -, hdispatched⟩ :=
    handleLoop_intakes app false [] (.opened arrivals clock world)
  have hnone : (Conn.opened arrivals clock world).log = [] := rfl
  rw [hnone, List.nil_append] at hlog
  rw [hlog] at hxs
  obtain rfl : intakes es = xs := hxs
  have hsafe : FramedFrom rs 0 (intakes es) ↔ framingSafe arrivals rs 0 0 = true := hiff
  rw [← hsafe, mnetHandleClient, Framed, hlog, hdispatched]
  constructor
  · exact fun h => h.1
  · intro h
    have hcodes : (intakes es).filter (·.code = .ok) = intakes es :=
      List.filter_eq_self.mpr fun x hx => by simp [h.codes x hx]
    exact ⟨h, by rw [hcodes]⟩

-- ============================================================================
-- Two requests
-- ============================================================================

def keepAliveHeader : Bytes × Bytes := (ascii "Connection", ascii "keep-alive")

def helloPost : WireRequest where
  method := .post
  target := ascii "/"
  headers := [keepAliveHeader, (ascii "Content-Length", ascii "5")]
  body := ascii "hello"
  targetLength := by decide
  targetClean := by decide +kernel
  headersCount := by decide
  fields := by decide
  framing := by
    have hfilter : [keepAliveHeader, (ascii "Content-Length", ascii "5")].filter
        (fun field => strcaseeq field.1 (ascii "Content-Length")) =
          [(ascii "Content-Length", ascii "5")] := by decide
    rw [hfilter]
    show decimalValue (ascii "5") = some 5
    decide

def plainGet : WireRequest where
  method := .get
  target := ascii "/"
  headers := [keepAliveHeader]
  body := []
  targetLength := by decide
  targetClean := by decide +kernel
  headersCount := by decide
  fields := by decide
  framing := by
    have hfilter : [keepAliveHeader].filter
        (fun field => strcaseeq field.1 (ascii "Content-Length")) = [] := by decide
    rw [hfilter]
    rfl

theorem keepsAlive_pair : ∀ r ∈ [helloPost, plainGet], r.KeepsAlive {} := by
  intro r hr
  obtain rfl | rfl : r = helloPost ∨ r = plainGet := by simpa using hr
  all_goals exact
    { keepAlive := by decide, noNul := by decide, fits := by decide, bodyLimit := by decide }

/-- The connection that brings `arrivals`, on a clock that stands still. -/
def opened (arrivals : List Arrival) : Conn := .opened arrivals stillClock fun _ => {}

theorem opened_noExpiry (arrivals : List Arrival) :
    .expired ∉ (mnetHandleClient {} (opened arrivals)).log :=
  mnetHandleClient_noExpiry (prompt_stillClock ⟨by decide, by decide⟩) arrivals _

/-- The pair with the body cut in two and the second request for itself. -/
def pairInPieces : List Arrival :=
  [.segment (helloPost.head ++ ascii "he"), .segment (ascii "llo"), .segment plainGet.render]

theorem streamOf_pairInPieces :
    streamOf pairInPieces = [helloPost, plainGet].flatMap WireRequest.render := by
  decide +kernel

theorem delivers_pairInPieces :
    delivers pairInPieces (streamOf pairInPieces).length = true := by
  decide +kernel

theorem framed_pairInPieces :
    Framed [helloPost, plainGet] (mnetHandleClient {} (opened pairInPieces)).log ↔
      framingSafe pairInPieces [helloPost, plainGet] 0 0 = true :=
  framed_iff_framingSafe {} [helloPost, plainGet] pairInPieces stillClock (fun _ => {})
    keepsAlive_pair streamOf_pairInPieces delivers_pairInPieces (opened_noExpiry pairInPieces)

/-- The pair in one segment. -/
def pairAtOnce : List Arrival := [.segment (helloPost.render ++ plainGet.render)]

/-- The body is kept in front of the second request, and parsed with it. -/
theorem not_framed_pairAtOnce :
    streamOf pairAtOnce = [helloPost, plainGet].flatMap WireRequest.render ∧
      delivers pairAtOnce (streamOf pairAtOnce).length = true ∧
      (∀ r ∈ [helloPost, plainGet], r.KeepsAlive {}) ∧
      .expired ∉ (mnetHandleClient {} (opened pairAtOnce)).log ∧
      ¬ Framed [helloPost, plainGet] (mnetHandleClient {} (opened pairAtOnce)).log := by
  have hstream : streamOf pairAtOnce = [helloPost, plainGet].flatMap WireRequest.render := by
    decide +kernel
  have hdel : delivers pairAtOnce (streamOf pairAtOnce).length = true := by decide +kernel
  refine ⟨hstream, hdel, keepsAlive_pair, opened_noExpiry pairAtOnce, fun h => ?_⟩
  obtain ⟨xs, hxs, hiff⟩ := (atRequest_opened hstream hdel stillClock fun _ => {}).handleLoop_framed
    keepsAlive_pair (opened_noExpiry pairAtOnce)
  have hframed : FramedFrom [helloPost, plainGet] 0 xs := by
    have hall : intakes (mnetHandleClient {} (opened pairAtOnce)).log = xs := hxs
    rw [← hall]
    exact h.1
  have hfalse : framingSafe pairAtOnce [helloPost, plainGet] 0 0 = false := by decide +kernel
  exact absurd (hfalse.symm.trans (hiff.mp hframed)) Bool.false_ne_true

end Mnet
