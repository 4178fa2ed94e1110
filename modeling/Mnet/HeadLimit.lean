/-
  Mnet.HeadLimit

  The size limit of a request head: the buffer takes 8191 bytes and a NUL.

  A head whose blank line ends within these bytes is parsed, however the bytes
  are cut into segments; when they hold no blank line the answer is 431.  Both
  come from one lemma about the reading loop (`readHead_takes`): it stops at
  a blank line, or it has taken all the bytes that came in time.
-/

import Mnet.HeadReading
import Mnet.Intakes
import Mnet.ParseSpec

namespace Mnet

-- ============================================================================
-- Heads
-- ============================================================================

/-- A blank line ends with byte `k` of the text. -/
def BlankLineEnds (text : Bytes) (k : Nat) : Prop :=
  crlfcrlf <:+ text.take k ∨ lflf <:+ text.take k

instance (text : Bytes) (k : Nat) : Decidable (BlankLineEnds text k) :=
  inferInstanceAs (Decidable (_ ∨ _))

/-- The head the text begins with is its first `need` bytes. -/
structure HeadEnds (text : Bytes) (need : Nat) : Prop where
  inside : need ≤ text.length
  blank : BlankLineEnds text need
  first : ∀ k < need, ¬ BlankLineEnds text k

/-- The first `n` bytes of the arrivals come in time: each time the clock is
    read for the next segment it stands before the deadline, and the segment
    is there.  `readings` counts the readings made so far. -/
inductive ComesInTime (clock : Nat → Int) (deadlineMs : Int) :
    List Arrival → Nat → Nat → Prop where
  | complete (arrivals : List Arrival) (readings : Nat) :
      ComesInTime clock deadlineMs arrivals readings 0
  | segment {bytes : Bytes} {rest : List Arrival} {readings n : Nat}
      (hnow : clock readings < deadlineMs) (hne : bytes ≠ [])
      (hrest : ComesInTime clock deadlineMs rest (readings + 1) (n + 1 - bytes.length)) :
      ComesInTime clock deadlineMs (.segment bytes :: rest) readings (n + 1)

/-- The request `x` was the first that was parsed, from a buffer that begins
    like the stream and holds its first `need` bytes. -/
structure HeadParsed (app : MnetApp) (conn : Conn) (need : Nat) (x : Intake) : Prop where
  first : ∃ more, intakes (mnetHandleClient app conn).log = x :: more
  offset : x.offset = 0
  buffer : x.buffer <+: conn.stream
  whole : need ≤ x.buffer.length
  result : ∃ conn' conn'', parseRequest conn' x.buffer x.buffer.length app.bodyLimit
    (requestTimeout app false) = (x.code, x.request, conn'')

/-- The page that answers a head that does not fit. -/
def tooLargePage : List Bytes :=
  pageBlocks 431 (ascii "Request Header Fields Too Large")
    (simpleErrorBody 431 (ascii "Request Header Fields Too Large")
      (ascii "Request headers exceed the maximum size.")) false

/-- All that was done on the connection was to receive and to send the page:
    nothing was parsed or dispatched, and no further request is waited for. -/
def HeadRefused (app : MnetApp) (conn : Conn) : Prop :=
  ∃ ins, (mnetHandleClient app conn).log =
      .waiting conn.nowMs :: ins ++ tooLargePage.map .send ∧ ∀ e ∈ ins, e.isInput

/-- What was parsed was a piece of the stream in which a head ends. -/
structure HeldWhole (stream : Bytes) (x : Intake) : Prop where
  piece : x.buffer <+: stream.drop x.offset
  ends : ∃ e n, endOfHeaders x.buffer = some (e, n) ∧ e + n ≤ x.buffer.length

-- ============================================================================
-- Blank lines
-- ============================================================================

theorem infix_iff_suffix_take {text needle : Bytes} :
    needle <:+: text ↔ ∃ k ≤ text.length, needle <:+ text.take k := by
  rw [List.infix_iff_suffix_prefix]
  constructor
  · rintro ⟨front, hends, hfront⟩
    refine ⟨front.length, hfront.length_le, ?_⟩
    rwa [← List.prefix_iff_eq_take.mp hfront]
  · rintro ⟨k, -, hends⟩
    exact ⟨text.take k, hends, List.take_prefix k text⟩

theorem hasBlankLine_iff {text : Bytes} (hnul : (0 : Byte) ∉ text) :
    hasBlankLine text = true ↔ ∃ k ≤ text.length, BlankLineEnds text k := by
  rw [hasBlankLine, Bool.or_eq_true, strstr_isSome_iff hnul, strstr_isSome_iff hnul,
    infix_iff_suffix_take, infix_iff_suffix_take]
  constructor
  · rintro (⟨k, hk, h⟩ | ⟨k, hk, h⟩)
    · exact ⟨k, hk, .inl h⟩
    · exact ⟨k, hk, .inr h⟩
  · rintro ⟨k, hk, h | h⟩
    · exact .inl ⟨k, hk, h⟩
    · exact .inr ⟨k, hk, h⟩

/-- A prefix of the text has the blank lines that end inside it. -/
theorem hasBlankLine_of_isPrefix {p text : Bytes} (hp : p <+: text) (hnul : (0 : Byte) ∉ text) :
    hasBlankLine p = true ↔ ∃ k ≤ p.length, BlankLineEnds text k := by
  obtain ⟨t, rfl⟩ := hp
  rw [hasBlankLine_iff fun h => hnul (List.mem_append_left _ h)]
  refine exists_congr fun k => and_congr_right fun hk => ?_
  rw [BlankLineEnds, BlankLineEnds, List.take_append_of_le_length hk]

-- ============================================================================
-- The reading loop
-- ============================================================================

theorem recvTurn_room {conn : Conn} {deadlineMs : Int} {bytes : Bytes} {rest : List Arrival}
    (buffer : Bytes) (harr : conn.arrivals = .segment bytes :: rest)
    (hnow : conn.nowMs < deadlineMs) :
    ∃ conn', recvTurn conn deadlineMs (bufferRoom - buffer.length) =
        (bytes.take (bufferRoom - buffer.length), conn') ∧
      (bytes.length ≤ bufferRoom - buffer.length → conn'.arrivals = rest) ∧
      conn'.clock = conn.clock ∧ conn'.readings = conn.readings + 1 := by
  obtain ⟨conn', hturn, harr', hclock, hreadings⟩ :=
    recvTurn_segment harr hnow (bufferRoom - buffer.length)
  have hroom : recvLength (bufferRoom - buffer.length) = bufferRoom - buffer.length :=
    recvLength_of_lt (Nat.lt_of_le_of_lt (Nat.sub_le _ _) (by decide))
  rw [hroom] at hturn
  refine ⟨conn', hturn, fun hle => ?_, hclock, hreadings⟩
  rw [harr', leftOver, hroom, if_pos (List.drop_eq_nil_of_le hle)]

/-- The loop stops at a blank line, or it goes on when it has taken the bytes
    that come in time. -/
theorem readHead_takes {clock : Nat → Int} {deadlineMs : Int} {arrivals : List Arrival}
    {readings n : Nat} (h : ComesInTime clock deadlineMs arrivals readings n) (conn : Conn)
    (buffer : Bytes) (harr : conn.arrivals = arrivals) (hread : conn.readings = readings)
    (hclock : conn.clock = clock) (hroom : buffer.length + n ≤ bufferRoom)
    (hnone : hasBlankLine buffer = false) :
    ∃ got conn', conn.Received got conn' ∧
      (readHead conn deadlineMs buffer = (true, buffer ++ got, conn') ∨
        readHead conn deadlineMs buffer = readHead conn' deadlineMs (buffer ++ got) ∧
          n ≤ got.length ∧ hasBlankLine (buffer ++ got) = false) := by
  induction h generalizing conn buffer with
  | complete arrivals readings =>
      refine ⟨[], conn, .refl conn, .inr ⟨?_, Nat.zero_le _, ?_⟩⟩
      · rw [List.append_nil]
      · rw [List.append_nil]
        exact hnone
  | @segment bytes rest readings n hnow hne hrest ih =>
      have hlt : buffer.length < bufferRoom := by omega
      have hnow' : conn.nowMs < deadlineMs := by
        rw [Conn.nowMs, hclock, hread]
        exact hnow
      obtain ⟨conn₁, hturn, hrest', hclock₁, hread₁⟩ :=
        recvTurn_room buffer harr hnow'
      have hrecv := recvTurn_received conn deadlineMs (bufferRoom - buffer.length)
      rw [hturn] at hrecv
      dsimp only at hrecv
      have hgot : bytes.take (bufferRoom - buffer.length) ≠ [] := by
        rw [ne_eq, List.take_eq_nil_iff, not_or]
        exact ⟨by omega, hne⟩
      have hlen : (bytes.take (bufferRoom - buffer.length)).length =
          min (bufferRoom - buffer.length) bytes.length := List.length_take ..
      obtain ⟨b, got, hcons⟩ := List.exists_cons_of_ne_nil hgot
      have hstep : readHead conn deadlineMs buffer =
          if hasBlankLine (buffer ++ b :: got) then (true, buffer ++ b :: got, conn₁)
          else readHead conn₁ deadlineMs (buffer ++ b :: got) := by
        rw [readHead, if_pos hlt, hturn, hcons]
      rw [hcons] at hrecv hlen
      by_cases hblank : hasBlankLine (buffer ++ b :: got) = true
      · exact ⟨_, conn₁, hrecv, .inl (by rw [hstep, if_pos hblank])⟩
      · rw [if_neg hblank] at hstep
        rw [Bool.not_eq_true] at hblank
        by_cases hfits : bytes.length ≤ bufferRoom - buffer.length
        · -- the whole segment is taken: the rest comes in the next turns
          rw [Nat.min_eq_right hfits] at hlen
          obtain ⟨more, conn', hmore, hout⟩ := ih conn₁ (buffer ++ b :: got) (hrest' hfits)
            (by rw [hread₁, hread]) (by rw [hclock₁, hclock])
            (by rw [List.length_append]; omega) hblank
          refine ⟨b :: got ++ more, conn', hrecv.trans hmore, ?_⟩
          rw [← List.append_assoc, hstep]
          refine hout.imp_right fun ⟨heq, hle, hnone'⟩ => ⟨heq, ?_, hnone'⟩
          rw [List.length_append]
          omega
        · -- the buffer is full
          exact ⟨_, conn₁, hrecv, .inr ⟨hstep, by omega, hblank⟩⟩

/-- The buffer is never overrun. -/
theorem length_readHead_le (conn : Conn) (deadlineMs : Int) {buffer : Bytes}
    (h : buffer.length ≤ bufferRoom) :
    (readHead conn deadlineMs buffer).2.1.length ≤ bufferRoom := by
  have hturn' : ∀ (c : Conn) (buf got : Bytes) (c' : Conn), buf.length < bufferRoom →
      recvTurn c deadlineMs (bufferRoom - buf.length) = (got, c') →
      (buf ++ got).length ≤ bufferRoom := by
    intro c buf got c' hlt hturn
    have hlen := length_recvTurn_le c deadlineMs (bufferRoom - buf.length)
    rw [hturn, recvLength_of_lt (Nat.lt_of_le_of_lt (Nat.sub_le _ _) (by decide))] at hlen
    rw [List.length_append]
    dsimp only at hlen
    omega
  fun_induction readHead conn deadlineMs buffer with
  | case1 conn buffer hlt conn' hturn => exact h
  | case2 conn buffer hlt b got conn' hturn hblank => exact hturn' _ _ _ _ hlt hturn
  | case3 conn buffer hlt b got conn' hturn hblank ih => exact ih (hturn' _ _ _ _ hlt hturn)
  | case4 conn buffer hge => exact h

theorem readRequest_first (app : MnetApp) (conn : Conn) :
    readRequest app false [] conn =
      readHead (conn.beginPass []) (conn.nowMs + requestTimeout app false) [] := by
  rw [readRequest, if_neg fun h => h.1 rfl]

/-- A head that comes in time and fits is read as a whole. -/
theorem readRequest_of_headEnds {app : MnetApp} {conn : Conn} {need : Nat}
    (hnul : (0 : Byte) ∉ conn.stream) (hhead : HeadEnds conn.stream need)
    (hfits : need ≤ bufferRoom)
    (htime : ComesInTime conn.clock (conn.nowMs + requestTimeout app false) conn.arrivals
      (conn.readings + 1) need) :
    ∃ got conn', readRequest app false [] conn = (true, got, conn') ∧ got <+: conn.stream ∧
      need ≤ got.length := by
  obtain ⟨got, conn', hrecv, hout⟩ := readHead_takes htime (conn.beginPass []) [] rfl rfl rfl
    (by rw [List.length_nil]; omega) rfl
  have hpre : got <+: conn.stream := ⟨_, hrecv.stream.symm⟩
  rw [List.nil_append] at hout
  rcases hout with hread | ⟨-, hle, hnone⟩
  · refine ⟨got, conn', by rw [readRequest_first, hread], hpre, ?_⟩
    have hblank := readHead_blankLine (congrArg Prod.fst hread)
    rw [hread] at hblank
    obtain ⟨k, hk, hends⟩ := (hasBlankLine_of_isPrefix hpre hnul).mp hblank
    by_contra hlt
    exact hhead.first k (by omega) hends
  · have hblank := (hasBlankLine_of_isPrefix hpre hnul).mpr ⟨need, hle, hhead.blank⟩
    rw [hnone] at hblank
    exact absurd hblank (by simp)

/-- When no blank line ends in the bytes that fill the buffer, the loop gives
    up with a full one. -/
theorem readRequest_of_full {app : MnetApp} {conn : Conn} (hnul : (0 : Byte) ∉ conn.stream)
    (hnone : ∀ k ≤ bufferRoom, ¬ BlankLineEnds conn.stream k)
    (htime : ComesInTime conn.clock (conn.nowMs + requestTimeout app false) conn.arrivals
      (conn.readings + 1) bufferRoom) :
    ∃ got conn', readRequest app false [] conn = (false, got, conn') ∧
      (conn.beginPass []).Received got conn' ∧ bufferRoom ≤ got.length := by
  obtain ⟨got, conn', hrecv, hout⟩ := readHead_takes htime (conn.beginPass []) [] rfl rfl rfl
    (by rw [List.length_nil]; omega) rfl
  have hpre : got <+: conn.stream := ⟨_, hrecv.stream.symm⟩
  rw [List.nil_append] at hout
  rcases hout with hread | ⟨hread, hle, -⟩
  · have hblank := readHead_blankLine (congrArg Prod.fst hread)
    rw [hread] at hblank
    obtain ⟨k, hk, hends⟩ := (hasBlankLine_of_isPrefix hpre hnul).mp hblank
    have hmost := length_readHead_le (conn.beginPass [])
      (conn.nowMs + requestTimeout app false)
      (show ([] : Bytes).length ≤ bufferRoom from Nat.zero_le _)
    rw [hread] at hmost
    exact absurd hends (hnone k (Nat.le_trans hk hmost))
  · refine ⟨got, conn', ?_, hrecv, hle⟩
    rw [readRequest_first, hread, readHead, if_neg (Nat.not_lt.mpr hle)]

-- ============================================================================
-- What is parsed
-- ============================================================================

/-- Between two passes: the bytes to come follow those consumed, and the buffer
    is empty, or a piece of the stream that begins at `start` and holds the
    next head. -/
structure Between (stream buffer : Bytes) (conn : Conn) : Prop where
  rest : conn.stream = stream.drop conn.consumed
  piece : buffer <+: stream.drop (conn.beginPass buffer).start
  blank : buffer ≠ [] → hasBlankLine buffer = true

theorem between_nil {stream : Bytes} {conn : Conn} (h : conn.stream = stream.drop conn.consumed) :
    Between stream [] conn where
  rest := h
  piece := List.nil_prefix
  blank := absurd rfl

theorem Conn.Received.rest {stream got : Bytes} {a b : Conn} (h : a.Received got b)
    (ha : a.stream = stream.drop a.consumed) : b.stream = stream.drop b.consumed := by
  rw [h.consumed, ← List.drop_drop, ← ha, h.stream, List.drop_left]

/-- What the pass has in its buffer when it goes on to the parser. -/
theorem Between.readRequest {app : MnetApp} {keepAlive : Bool} {stream buffer buffer' : Bytes}
    {conn conn' : Conn} (h : Between stream buffer conn)
    (hread : readRequest app keepAlive buffer conn = (true, buffer', conn')) :
    buffer' <+: stream.drop (conn.beginPass buffer).start := by
  by_cases hnil : buffer = []
  · obtain ⟨got, hrecv, hbuf⟩ := readRequest_received app keepAlive buffer conn
    rw [hread] at hrecv hbuf
    subst hnil
    have hstart : (conn.beginPass []).start = conn.consumed := rfl
    have hstream : (conn.beginPass []).stream = stream.drop conn.consumed := h.rest
    rw [List.nil_append] at hbuf
    rw [hstart, ← hstream, hrecv.stream]
    exact ⟨conn'.stream, congrArg (· ++ conn'.stream) hbuf⟩
  · rw [Mnet.readRequest, if_pos ⟨hnil, h.blank hnil⟩] at hread
    rw [← (Prod.mk.inj (Prod.mk.inj hread).2).1]
    exact h.piece

theorem nextBuffer_cases (buffer : Bytes) :
    nextBuffer buffer = [] ∨
      ∃ headerLen, headerLen < buffer.length ∧ nextBuffer buffer = buffer.drop headerLen ∧
        hasBlankLine (buffer.drop headerLen) = true := by
  rw [nextBuffer]
  split
  · exact .inl rfl
  · next headEnd sepLen hend =>
    dsimp only
    split
    · next h =>
      refine .inr ⟨headEnd + sepLen, h.1, rfl, ?_⟩
      rw [hasBlankLine, h.2]
      rfl
    · exact .inl rfl

theorem Between.next {app : MnetApp} {keepAlive : Bool} {stream buffer next : Bytes}
    {conn conn' : Conn} (h : Between stream buffer conn)
    (hstep : clientStep app keepAlive buffer conn = (some next, conn')) :
    Between stream next conn' := by
  obtain ⟨got, hrecv, -⟩ := readRequest_received app keepAlive buffer conn
  rcases hread : Mnet.readRequest app keepAlive buffer conn with ⟨_ | _, buffer', conn₁⟩
  · rw [clientStep] at hstep
    rw [hread] at hstep
    dsimp only at hstep
    split at hstep <;> simp at hstep
  · have hpiece := h.readRequest hread
    rw [hread] at hrecv
    rw [clientStep_of_readRequest hread] at hstep
    obtain ⟨body, hbody⟩ := parseRequest_received conn₁ buffer' buffer'.length app.bodyLimit
      (requestTimeout app keepAlive)
    obtain ⟨code, parsed, conn₂, hparse, ⟨-, hserve⟩ | ⟨-, hserve⟩⟩ :=
      serveRequest_cases app conn₁ (requestTimeout app keepAlive) buffer'
    · rw [hserve] at hstep
      simp at hstep
    · rw [hparse] at hbody
      have hall := hrecv.trans hbody
      have hrest := hall.rest (show (conn.beginPass buffer).stream = _ from h.rest)
      rw [hserve] at hstep
      obtain ⟨hnext, rfl⟩ := Prod.mk.inj hstep
      obtain ⟨response, hserved⟩ := serveParsed_eq app
        (conn₂.emit (.parsed conn₁.start buffer' code parsed)) buffer' parsed
      have hnext' : next = nextBuffer buffer' := by
        split at hnext
        · exact (Option.some.inj hnext).symm
        · simp at hnext
      rw [hserved, hnext']
      obtain hnil | ⟨headerLen, hlt, heq, hblank⟩ := nextBuffer_cases buffer'
      · rw [hnil]
        exact between_nil hrest
      · have hne : nextBuffer buffer' ≠ [] := by
          rw [heq, ne_eq, List.drop_eq_nil_iff]
          omega
        refine ⟨hrest, ?_, fun _ => heq ▸ hblank⟩
        have hstart : conn₂.start = (conn.beginPass buffer).start := hall.start
        show nextBuffer buffer' <+: stream.drop (if nextBuffer buffer' = [] then _ else
          conn₂.start + (buffer'.length - (nextBuffer buffer').length))
        rw [if_neg hne, heq, List.length_drop, Nat.sub_sub_self (Nat.le_of_lt hlt), hstart,
          ← List.drop_drop]
        obtain ⟨t, ht⟩ := hpiece
        refine ⟨t, ?_⟩
        rw [← ht, List.drop_append_of_le_length (Nat.le_of_lt hlt)]

/-- A buffer with a blank line has a head that ends in it. -/
theorem endOfHeaders_of_hasBlankLine {buffer : Bytes} (h : hasBlankLine buffer = true) :
    ∃ e n, endOfHeaders buffer = some (e, n) ∧ e + n ≤ buffer.length := by
  obtain ⟨⟨e, n⟩, hend⟩ : ∃ en, endOfHeaders buffer = some en := by
    rw [hasBlankLine, Bool.or_eq_true] at h
    rw [endOfHeaders]
    cases hcr : strstr buffer crlfcrlf with
    | some sep => exact ⟨_, rfl⟩
    | none =>
        cases hlf : strstr buffer lflf with
        | some sep => exact ⟨_, rfl⟩
        | none => simp [hcr, hlf] at h
  exact ⟨e, n, hend, Nat.le_trans (endOfHeaders_spec hend).1 (cstr_isPrefix buffer).length_le⟩

theorem Between.clientStep {stream buffer : Bytes} {conn : Conn} (h : Between stream buffer conn)
    (app : MnetApp) (keepAlive : Bool) :
    ∃ xs, intakes (clientStep app keepAlive buffer conn).2.log = intakes conn.log ++ xs ∧
      ∀ x ∈ xs, HeldWhole stream x := by
  rcases hread : Mnet.readRequest app keepAlive buffer conn with ⟨_ | _, buffer', conn₁⟩
  · have hidle := (clientStep_idle (congrArg Prod.fst hread)).1
    exact ⟨[], by rw [hidle, List.append_nil], by simp⟩
  · obtain ⟨x, conn'', hlog, hoff, hbuf, -⟩ := clientStep_parses hread
    refine ⟨[x], hlog, fun y hy => ?_⟩
    obtain rfl := List.mem_singleton.mp hy
    have hblank := readRequest_blankLine (congrArg Prod.fst hread)
    rw [hread] at hblank
    refine ⟨?_, hbuf ▸ endOfHeaders_of_hasBlankLine hblank⟩
    rw [hoff, hbuf]
    exact h.readRequest hread

theorem Between.handleLoop {stream buffer : Bytes} {conn : Conn} (h : Between stream buffer conn)
    (app : MnetApp) (keepAlive : Bool) :
    ∃ xs, intakes (handleLoop app keepAlive buffer conn).log = intakes conn.log ++ xs ∧
      ∀ x ∈ xs, HeldWhole stream x := by
  fun_induction Mnet.handleLoop app keepAlive buffer conn with
  | case1 keepAlive buffer conn conn' hstep =>
      obtain ⟨xs, hxs, hheld⟩ := h.clientStep app keepAlive
      rw [hstep] at hxs
      exact ⟨xs, hxs, hheld⟩
  | case2 keepAlive buffer conn next conn' hstep ih =>
      obtain ⟨xs, hxs, hheld⟩ := h.clientStep app keepAlive
      obtain ⟨ys, hys, hheld'⟩ := ih (h.next hstep)
      rw [hstep] at hxs
      refine ⟨xs ++ ys, by rw [hys, hxs, List.append_assoc], fun x hx => ?_⟩
      exact (List.mem_append.mp hx).elim (hheld x) (hheld' x)

-- ============================================================================
-- The limit
-- ============================================================================

theorem headParsed_of_headEnds {app : MnetApp} {arrivals : List Arrival} {clock : Nat → Int}
    {world : Nat → World} {need : Nat}
    (hnul : (0 : Byte) ∉ (Conn.opened arrivals clock world).stream)
    (hhead : HeadEnds (Conn.opened arrivals clock world).stream need) (hfits : need ≤ bufferRoom)
    (htime : ComesInTime clock (clock 0 + requestTimeout app false) arrivals 1 need) :
    ∃ x, HeadParsed app (.opened arrivals clock world) need x := by
  obtain ⟨got, conn', hread, hpre, hwhole⟩ :=
    @readRequest_of_headEnds app (.opened arrivals clock world) need hnul hhead hfits htime
  obtain ⟨x, conn'', hlog, hoff, hbuf, hresult⟩ := clientStep_parses hread
  obtain ⟨es, hes⟩ := clientStep_isPrefix_handleLoop app false [] (.opened arrivals clock world)
  subst hbuf
  refine ⟨x, ⟨⟨intakes es, ?_⟩, hoff, hpre, hwhole, conn', conn'', hresult⟩⟩
  rw [mnetHandleClient, ← hes, intakes_append, hlog]
  rfl

theorem headRefused_of_full {app : MnetApp} {arrivals : List Arrival} {clock : Nat → Int}
    {world : Nat → World} (hnul : (0 : Byte) ∉ (Conn.opened arrivals clock world).stream)
    (hnone : ∀ k ≤ bufferRoom, ¬ BlankLineEnds (Conn.opened arrivals clock world).stream k)
    (htime : ComesInTime clock (clock 0 + requestTimeout app false) arrivals 1 bufferRoom) :
    HeadRefused app (.opened arrivals clock world) := by
  obtain ⟨got, conn', hread, hrecv, hfull⟩ :=
    @readRequest_of_full app (.opened arrivals clock world) hnul hnone htime
  have hstep : Mnet.clientStep app false [] (.opened arrivals clock world) =
      (none, conn'.sends tooLargePage) := by
    rw [Mnet.clientStep, hread]
    dsimp only
    rw [if_pos hfull, sendSimpleError_eq_sends]
    rfl
  obtain ⟨ins, hins, hinput⟩ := hrecv.log
  refine ⟨ins, ?_, hinput⟩
  rw [mnetHandleClient, handleLoop_none hstep, Conn.sends, hins]
  rfl

/-- The limit on a request head is 8191 bytes, however they are cut into
    segments.  The head that a NUL-free stream begins with is parsed whole when
    it fits and comes in time; when the first 8191 bytes come in time and no
    blank line ends in them the answer is 431 and nothing else happens.  Every
    buffer that is parsed on a connection is a piece of its stream in which a
    head ends. -/
theorem headLimit_exact (app : MnetApp) (arrivals : List Arrival) (clock : Nat → Int)
    (world : Nat → World) :
    ((0 : Byte) ∉ (Conn.opened arrivals clock world).stream →
      (∀ need ≤ 8191, HeadEnds (Conn.opened arrivals clock world).stream need →
        ComesInTime clock (clock 0 + requestTimeout app false) arrivals 1 need →
        ∃ x, HeadParsed app (.opened arrivals clock world) need x) ∧
      ((∀ k ≤ 8191, ¬ BlankLineEnds (Conn.opened arrivals clock world).stream k) →
        ComesInTime clock (clock 0 + requestTimeout app false) arrivals 1 8191 →
        HeadRefused app (.opened arrivals clock world))) ∧
    ∀ x ∈ intakes (mnetHandleClient app (.opened arrivals clock world)).log,
      HeldWhole (Conn.opened arrivals clock world).stream x := by
  refine ⟨fun hnul => ⟨?_, ?_⟩, ?_⟩
  · intro need hfits hhead htime
    exact headParsed_of_headEnds hnul hhead hfits htime
  · intro hnone htime
    exact headRefused_of_full hnul hnone htime
  · have hstart : Between (Conn.opened arrivals clock world).stream []
        (.opened arrivals clock world) := between_nil rfl
    obtain ⟨xs, hxs, hheld⟩ := hstart.handleLoop app false
    have hopened : intakes (Conn.opened arrivals clock world).log = [] := rfl
    rw [hopened, List.nil_append] at hxs
    rw [mnetHandleClient, hxs]
    exact hheld

/-- A head whose separator is cut by a segment's end. -/
def cutSeparator : List Arrival :=
  [.segment (ascii "GET / HTTP/1.1\r\n\r"), .segment (ascii "\n")]

/-- A line that fills the buffer. -/
def fullBuffer : List Arrival := [.segment (List.replicate 8191 97)]

theorem not_blankLineEnds_fullBuffer (k : Nat) :
    ¬ BlankLineEnds (Conn.opened fullBuffer (fun _ => 0) fun _ => {}).stream k := by
  have hstream : (Conn.opened fullBuffer (fun _ => 0) fun _ => {}).stream =
      List.replicate 8191 97 := List.append_nil _
  rw [hstream]
  rintro (h | h)
  · have hmem : LF ∈ List.replicate 8191 97 := List.mem_of_mem_take (h.subset (by decide))
    exact absurd (List.eq_of_mem_replicate hmem) (by decide)
  · have hmem : LF ∈ List.replicate 8191 97 := List.mem_of_mem_take (h.subset (by decide))
    exact absurd (List.eq_of_mem_replicate hmem) (by decide)

theorem headLimit_exact_cutSeparator :
    (∃ x, HeadParsed {} (.opened cutSeparator (fun _ => 0) fun _ => {}) 18 x) ∧
      HeadRefused {} (.opened fullBuffer (fun _ => 0) fun _ => {}) := by
  constructor
  · refine ((headLimit_exact {} cutSeparator (fun _ => 0) fun _ => {}).1 (by decide)).1 18
      (by decide) ⟨by decide, by decide, by decide⟩ ?_
    exact .segment (by decide) (by decide) (.segment (by decide) (by decide) (.complete _ _))
  · refine ((headLimit_exact {} fullBuffer (fun _ => 0) fun _ => {}).1 ?_).2
      (fun k _ => not_blankLineEnds_fullBuffer k) ?_
    · intro h
      have hmem : (0 : Byte) ∈ List.replicate 8191 97 := by
        rwa [← List.append_nil (List.replicate 8191 97)]
      exact absurd (List.eq_of_mem_replicate hmem) (by decide)
    · refine .segment (by decide) (fun h => absurd (congrArg List.length h) ?_) ?_
      · rw [List.length_replicate]
        decide
      rw [List.length_replicate]
      exact .complete _ _

end Mnet
