/-
  Mnet.Conn

  One client connection as the process meets it: the socket calls of `mnet.c`,
  the monotonic clock, and a log of what was done.

  The environment is fixed up front: what `poll`/`recv` will meet
  (`arrivals`, then the peer's close), every reading of the clock, and the
  world each handler call will run in.  The calls consume it step by step.
  The log records the calls in order; with `consumed` (the bytes received so
  far) and `start` (where the server's buffer begins in the stream) it is
  bookkeeping that no modelled function reads, except that the log's length
  picks the world of a handler call.
-/

import Mnet.Internal

namespace Mnet

/-- What the next turn of `poll` and `recv` meets. -/
inductive Arrival where
  /-- bytes are readable; `recv` returns as many of them as it is asked for -/
  | segment (bytes : Bytes)
  /-- nothing comes: `poll` runs into its timeout -/
  | silence
  /-- `poll` fails -/
  | pollError
  /-- `recv` fails -/
  | recvError
deriving DecidableEq, Repr

/-- What a connection handler does, in order. -/
inductive Event where
  /-- the clock was read and the wait for a request began -/
  | waiting (t0 : Int)
  /-- a `recv` for at most `asked` bytes, made after the clock read `now` -/
  | recv (now : Int) (asked : Nat) (bytes : Bytes)
  /-- a receive loop gave up at its deadline -/
  | expired
  /-- `parse_request` ran on `buffer`, whose first byte is the byte number
      `offset` of the stream, counted from 0 -/
  | parsed (offset : Nat) (buffer : Bytes) (code : ParseCode) (req : ParsedRequest)
  /-- `dispatch` ran -/
  | dispatched (req : ParsedRequest) (response : MnetResponse)
  /-- a block handed to `mnet_send` -/
  | send (bytes : Bytes)
deriving DecidableEq, Repr

structure Conn where
  arrivals : List Arrival
  clock : Nat → Int
  world : Nat → World := fun _ => {}
  readings : Nat := 0
  consumed : Nat := 0
  start : Nat := 0
  log : List Event := []

namespace Conn

/-- A connection nothing has been read from. -/
def opened (arrivals : List Arrival) (clock : Nat → Int) (world : Nat → World) : Conn :=
  { arrivals := arrivals, clock := clock, world := world }

/-- A connection on which nothing comes, and whose clock stands still. -/
def quiet : Conn := .opened [] (fun _ => 0) fun _ => {}

def emit (conn : Conn) (e : Event) : Conn := { conn with log := conn.log ++ [e] }

/-- The reading `now_ms_mono` returns. -/
def nowMs (conn : Conn) : Int := conn.clock conn.readings

/-- The connection after a reading of the clock. -/
def tick (conn : Conn) : Conn := { conn with readings := conn.readings + 1 }

/-- The connection when the wait for a request begins with `buffer` left over:
    an empty buffer starts at the next byte to come. -/
def beginPass (conn : Conn) (buffer : Bytes) : Conn :=
  { conn.tick.emit (.waiting conn.nowMs) with
    start := if buffer = [] then conn.consumed else conn.start }

/-- The connection after `n` bytes at the front of the buffer were let go. -/
def advance (conn : Conn) (n : Nat) : Conn := { conn with start := conn.start + n }

/-- The world a handler called now runs in. -/
def worldNow (conn : Conn) : World := conn.world conn.log.length

end Conn

/-- The length `recv` is asked for: `mnet_recv` narrows its `size_t` to `int`,
    and the call widens it again.  A negative `int` becomes a huge `size_t`,
    of which one call transfers at most `0x7ffff000` bytes. -/
def recvLength (length : Nat) : Nat :=
  if length % 2 ^ 32 < 2 ^ 31 then length % 2 ^ 32 else 0x7ffff000

/-- Short lengths pass through unchanged. -/
theorem recvLength_of_lt {length : Nat} (h : length < 2 ^ 31) : recvLength length = length := by
  unfold recvLength
  rw [Nat.mod_eq_of_lt (by omega), if_pos h]

/-- No more is asked for than is wanted, and nothing at the multiples of
    `2 ^ 32`: those are never passed. -/
theorem recvLength_le (length : Nat) :
    recvLength length ≤ length ∧ (2 ^ 32 ≤ length → recvLength length ≤ length - 2 ^ 32) := by
  unfold recvLength
  split
  · omega
  · omega

theorem recvLength_pos {length : Nat} (hpos : 0 < length) (h : length < 2 ^ 32) :
    0 < recvLength length := by
  unfold recvLength
  split
  · omega
  · omega

/-- `mnet_poll`: positive when `recv` would not block. -/
def mnetPoll (conn : Conn) : Int :=
  match conn.arrivals with
  | .silence :: _ => 0
  | .pollError :: _ => -1
  | _ => 1

/-- `mnet_recv`: the bytes received, none for a result `n <= 0`. -/
def mnetRecv (conn : Conn) (nowMs : Int) (length : Nat) : Bytes × Conn :=
  let asked := recvLength length
  match conn.arrivals with
  | .segment bytes :: rest =>
      let got := bytes.take asked
      let left := bytes.drop asked
      (got, { conn with
        arrivals := if left = [] then rest else .segment left :: rest
        consumed := conn.consumed + got.length
        log := conn.log ++ [.recv nowMs asked got] })
  | _ => ([], conn.emit (.recv nowMs asked []))

/-- One turn of a receive loop: read the clock, give up at the deadline, poll,
    receive.  No bytes means that the loop stops. -/
def recvTurn (conn : Conn) (deadlineMs : Int) (length : Nat) : Bytes × Conn :=
  let nowMs := conn.nowMs
  let conn := conn.tick
  let left := deadlineMs - nowMs
  if left ≤ 0 then ([], conn.emit .expired)
  else if mnetPoll conn ≤ 0 then ([], conn)
  else mnetRecv conn nowMs length

/-- `mnet_send`, on a socket that takes all it is given. -/
def mnetSend (conn : Conn) (data : Bytes) : Conn := conn.emit (.send data)

-- ============================================================================
-- The stream behind the calls
-- ============================================================================

def Arrival.bytes : Arrival → Bytes
  | .segment bytes => bytes
  | _ => []

/-- The events of the receiving calls. -/
def Event.isInput : Event → Bool
  | .recv _ _ _ => true
  | .expired => true
  | _ => false

/-- Whether the first `n` bytes of the arrivals are a row of non-empty
    segments. -/
def delivers : List Arrival → Nat → Bool
  | _, 0 => true
  | .segment bytes :: rest, n + 1 => bytes ≠ [] && delivers rest (n + 1 - bytes.length)
  | _, _ => false

/-- Where the segment ends that byte number `i` of the arrivals comes in. -/
def segmentEnd : List Arrival → Nat → Nat
  | [], _ => 0
  | a :: rest, i =>
      if i < a.bytes.length then a.bytes.length
      else a.bytes.length + segmentEnd rest (i - a.bytes.length)

namespace Conn

/-- The bytes still to come. -/
def stream (conn : Conn) : Bytes := conn.arrivals.flatMap Arrival.bytes

/-- The next `n` bytes come without silence, failure or close before the last
    of them. -/
def Delivers (conn : Conn) (n : Nat) : Prop := delivers conn.arrivals n = true

instance (conn : Conn) (n : Nat) : Decidable (conn.Delivers n) :=
  inferInstanceAs (Decidable (delivers conn.arrivals n = true))

/-- What receiving calls may do: take `got` off the front of the stream. -/
structure Received (conn : Conn) (got : Bytes) (conn' : Conn) : Prop where
  stream : conn.stream = got ++ conn'.stream
  consumed : conn'.consumed = conn.consumed + got.length
  log : ∃ es, conn'.log = conn.log ++ es ∧ ∀ e ∈ es, e.isInput
  clock : conn'.clock = conn.clock
  world : conn'.world = conn.world
  start : conn'.start = conn.start
  readings : conn.readings ≤ conn'.readings
  delivers : ∀ n, conn.Delivers n → conn'.Delivers (n - got.length)
  ends : ∀ i, got.length + segmentEnd conn'.arrivals i = segmentEnd conn.arrivals (got.length + i)

theorem Received.refl (conn : Conn) : Received conn [] conn where
  stream := rfl
  consumed := rfl
  log := ⟨[], (List.append_nil _).symm, by simp⟩
  clock := rfl
  world := rfl
  start := rfl
  readings := Nat.le_refl _
  delivers _ h := h
  ends i := by rw [List.length_nil, Nat.zero_add, Nat.zero_add]

theorem Received.trans {a b c : Conn} {g h : Bytes} (hab : Received a g b)
    (hbc : Received b h c) : Received a (g ++ h) c where
  stream := by rw [hab.stream, hbc.stream, List.append_assoc]
  consumed := by rw [hbc.consumed, hab.consumed, List.length_append, Nat.add_assoc]
  log := by
    obtain ⟨es, he, hes⟩ := hab.log
    obtain ⟨fs, hf, hfs⟩ := hbc.log
    refine ⟨es ++ fs, by rw [hf, he, List.append_assoc], fun e h => ?_⟩
    exact (List.mem_append.mp h).elim (hes e) (hfs e)
  clock := hbc.clock.trans hab.clock
  world := hbc.world.trans hab.world
  start := hbc.start.trans hab.start
  readings := Nat.le_trans hab.readings hbc.readings
  delivers n h := by
    rw [List.length_append, Nat.sub_add_eq]
    exact hbc.delivers _ (hab.delivers n h)
  ends i := by
    rw [List.length_append, Nat.add_assoc, hbc.ends, hab.ends, Nat.add_assoc]

theorem Received.tick (conn : Conn) : Received conn [] conn.tick :=
  { Received.refl conn with readings := Nat.le_succ _ }

theorem Received.emit (conn : Conn) {e : Event} (he : e.isInput) :
    Received conn [] (conn.emit e) :=
  { Received.refl conn with log := ⟨[e], rfl, by simpa using he⟩ }

theorem Received.length_le {a b : Conn} {g : Bytes} (h : Received a g b) :
    g.length + b.stream.length = a.stream.length := by
  rw [h.stream, List.length_append]

end Conn

theorem segmentEnd_segment (bytes : Bytes) (rest : List Arrival) (i : Nat) :
    segmentEnd (.segment bytes :: rest) i =
      if i < bytes.length then bytes.length
      else bytes.length + segmentEnd rest (i - bytes.length) := rfl

theorem delivers_zero (arrivals : List Arrival) : delivers arrivals 0 = true := by
  unfold delivers
  rfl

theorem delivers_segment {bytes : Bytes} {rest : List Arrival} {n : Nat} :
    delivers (.segment bytes :: rest) n = true ↔
      n = 0 ∨ (bytes ≠ [] ∧ delivers rest (n - bytes.length) = true) := by
  cases n with
  | zero => simp [delivers_zero]
  | succ n => simp [delivers]

theorem delivers_mono {arrivals : List Arrival} {m n : Nat} (hmn : m ≤ n)
    (h : delivers arrivals n = true) : delivers arrivals m = true := by
  induction arrivals generalizing m n with
  | nil =>
      cases n with
      | zero => rwa [Nat.le_zero.mp hmn]
      | succ n => simp [delivers] at h
  | cons a rest ih =>
      cases a with
      | segment bytes =>
          rw [delivers_segment] at h ⊢
          obtain rfl | ⟨hne, hrest⟩ := h
          · exact .inl (Nat.le_zero.mp hmn)
          · exact .inr ⟨hne, ih (Nat.sub_le_sub_right hmn _) hrest⟩
      | silence | pollError | recvError =>
          cases n with
          | zero => rwa [Nat.le_zero.mp hmn]
          | succ n => simp [delivers] at h

theorem Conn.Delivers.mono {conn : Conn} {m n : Nat} (h : conn.Delivers n) (hmn : m ≤ n) :
    conn.Delivers m := delivers_mono hmn h

theorem mnetRecv_received (conn : Conn) (nowMs : Int) (length : Nat) :
    conn.Received (mnetRecv conn nowMs length).1 (mnetRecv conn nowMs length).2 := by
  unfold mnetRecv
  split
  · next bytes rest harr =>
    refine { stream := ?_, consumed := rfl, log := ⟨_, rfl, by simp [Event.isInput]⟩,
             clock := rfl, world := rfl, start := rfl, readings := Nat.le_refl _, delivers := ?_, ends := fun i => ?_ }
    · simp only [Conn.stream, harr, List.flatMap_cons, Arrival.bytes]
      split
      · next hleft => rw [List.drop_eq_nil_iff] at hleft; rw [List.take_of_length_le hleft]
      · rw [List.flatMap_cons, ← List.append_assoc, Arrival.bytes, List.take_append_drop]
    · intro n hn
      have hlen : bytes.length = (bytes.take (recvLength length)).length +
          (bytes.drop (recvLength length)).length := by
        rw [← List.length_append, List.take_append_drop]
      simp only [Conn.Delivers, harr] at hn ⊢
      obtain rfl | ⟨hne, hrest⟩ := delivers_segment.mp hn
      · rw [Nat.zero_sub]
        exact delivers_zero _
      · split
        · next hleft =>
          rw [hleft, List.length_nil, Nat.add_zero] at hlen
          rwa [← hlen]
        · next hleft =>
          rw [delivers_segment]
          exact .inr ⟨hleft, by rwa [hlen, Nat.sub_add_eq] at hrest⟩
    · have hlen : bytes.length = (bytes.take (recvLength length)).length +
          (bytes.drop (recvLength length)).length := by
        rw [← List.length_append, List.take_append_drop]
      simp only [harr, segmentEnd_segment]
      split
      · next hleft =>
        rw [hleft, List.length_nil, Nat.add_zero] at hlen
        rw [if_neg (by omega), ← hlen, Nat.add_sub_cancel_left]
      · rw [segmentEnd_segment]
        split
        · rw [if_pos (by omega), hlen]
        · rw [if_neg (by omega), ← Nat.add_assoc, ← hlen]
          congr 2
          omega
  · exact Conn.Received.emit conn rfl

theorem length_mnetRecv_le (conn : Conn) (nowMs : Int) (length : Nat) :
    (mnetRecv conn nowMs length).1.length ≤ recvLength length := by
  unfold mnetRecv
  split
  · exact List.length_take_le _ _
  · exact Nat.zero_le _

/-- One `recv` reaches no further than the segment it reads from. -/
theorem length_mnetRecv {conn : Conn} {nowMs : Int} {length : Nat}
    (h : (mnetRecv conn nowMs length).1 ≠ []) :
    (mnetRecv conn nowMs length).1.length =
      min (segmentEnd conn.arrivals 0) (recvLength length) := by
  unfold mnetRecv at h ⊢
  split at h
  · next bytes rest harr =>
    have hpos : 0 < bytes.length := by
      rw [List.length_pos_iff]
      rintro rfl
      simp at h
    simp only [harr]
    rw [segmentEnd_segment, if_pos hpos, List.length_take, Nat.min_comm]
  · exact absurd rfl h

/-- The three ways a turn of a receive loop can go. -/
theorem recvTurn_cases (conn : Conn) (deadlineMs : Int) (length : Nat) :
    (deadlineMs ≤ conn.nowMs ∧
      recvTurn conn deadlineMs length = ([], conn.tick.emit .expired)) ∨
    (conn.nowMs < deadlineMs ∧ mnetPoll conn ≤ 0 ∧
      recvTurn conn deadlineMs length = ([], conn.tick)) ∨
    (conn.nowMs < deadlineMs ∧ 0 < mnetPoll conn ∧
      recvTurn conn deadlineMs length = mnetRecv conn.tick conn.nowMs length) := by
  have hpoll : mnetPoll conn.tick = mnetPoll conn := rfl
  simp only [recvTurn, hpoll]
  by_cases hleft : deadlineMs - conn.nowMs ≤ 0
  · exact .inl ⟨by omega, by rw [if_pos hleft]⟩
  · rw [if_neg hleft]
    by_cases hp : mnetPoll conn ≤ 0
    · exact .inr (.inl ⟨by omega, hp, by rw [if_pos hp]⟩)
    · exact .inr (.inr ⟨by omega, by omega, by rw [if_neg hp]⟩)

/-- What is left to be read of the arrivals behind a `recv` for `n` bytes that
    meets a segment. -/
def leftOver (bytes : Bytes) (rest : List Arrival) (n : Nat) : List Arrival :=
  if bytes.drop (recvLength n) = [] then rest else .segment (bytes.drop (recvLength n)) :: rest

/-- A turn before the deadline that meets a segment. -/
theorem recvTurn_segment {conn : Conn} {deadlineMs : Int} {bytes : Bytes} {rest : List Arrival}
    (harr : conn.arrivals = .segment bytes :: rest) (hnow : conn.nowMs < deadlineMs) (n : Nat) :
    ∃ conn', recvTurn conn deadlineMs n = (bytes.take (recvLength n), conn') ∧
      conn'.arrivals = leftOver bytes rest n ∧ conn'.clock = conn.clock ∧
      conn'.readings = conn.readings + 1 := by
  have hpoll : 0 < mnetPoll conn := by simp [mnetPoll, harr]
  obtain ⟨hge, -⟩ | ⟨-, hnot, -⟩ | ⟨-, -, hturn⟩ := recvTurn_cases conn deadlineMs n
  · omega
  · omega
  · rw [hturn]
    simp only [mnetRecv, Conn.tick, harr]
    exact ⟨_, rfl, rfl, rfl, rfl⟩

theorem recvTurn_received (conn : Conn) (deadlineMs : Int) (length : Nat) :
    conn.Received (recvTurn conn deadlineMs length).1 (recvTurn conn deadlineMs length).2 := by
  have htick := Conn.Received.tick conn
  obtain ⟨-, h⟩ | ⟨-, -, h⟩ | ⟨-, -, h⟩ := recvTurn_cases conn deadlineMs length
  · rw [h]
    exact htick.trans (Conn.Received.emit _ rfl)
  · rw [h]
    exact htick
  · rw [h]
    exact htick.trans (mnetRecv_received _ _ _)

theorem length_recvTurn_le (conn : Conn) (deadlineMs : Int) (length : Nat) :
    (recvTurn conn deadlineMs length).1.length ≤ recvLength length := by
  obtain ⟨-, h⟩ | ⟨-, -, h⟩ | ⟨-, -, h⟩ := recvTurn_cases conn deadlineMs length
  · simp [h]
  · simp [h]
  · rw [h]
    exact length_mnetRecv_le _ _ _

theorem length_recvTurn {conn : Conn} {deadlineMs : Int} {length : Nat}
    (h : (recvTurn conn deadlineMs length).1 ≠ []) :
    (recvTurn conn deadlineMs length).1.length =
      min (segmentEnd conn.arrivals 0) (recvLength length) := by
  obtain ⟨-, hturn⟩ | ⟨-, -, hturn⟩ | ⟨-, -, hturn⟩ := recvTurn_cases conn deadlineMs length
  · simp [hturn] at h
  · simp [hturn] at h
  · rw [hturn] at h ⊢
    exact length_mnetRecv h

/-- No receive loop gave up at its deadline on the way from `conn` to
    `conn'`. -/
def Conn.NoExpiry (conn conn' : Conn) : Prop := .expired ∉ conn'.log.drop conn.log.length

namespace Conn

theorem noExpiry_of_not_mem {a b : Conn} (h : .expired ∉ b.log) : a.NoExpiry b :=
  fun hmem => h (List.mem_of_mem_drop hmem)

theorem noExpiry_iff {a b : Conn} {es : List Event} (hes : b.log = a.log ++ es) :
    a.NoExpiry b ↔ .expired ∉ es := by
  rw [NoExpiry, hes, List.drop_left]

/-- A way is without expiry exactly when its parts are. -/
theorem noExpiry_trans_iff {a b c : Conn} {es fs : List Event} (hb : b.log = a.log ++ es)
    (hc : c.log = b.log ++ fs) : a.NoExpiry c ↔ a.NoExpiry b ∧ b.NoExpiry c := by
  have hac : c.log = a.log ++ (es ++ fs) := by rw [hc, hb, List.append_assoc]
  rw [noExpiry_iff hb, noExpiry_iff hc, noExpiry_iff hac, List.mem_append, not_or]

theorem Received.noExpiry_trans_iff {a b c : Conn} {g k : Bytes} (hab : Received a g b)
    (hbc : Received b k c) : a.NoExpiry c ↔ a.NoExpiry b ∧ b.NoExpiry c := by
  obtain ⟨es, hes, -⟩ := hab.log
  obtain ⟨fs, hfs, -⟩ := hbc.log
  exact Conn.noExpiry_trans_iff hes hfs

end Conn

/-- A turn gives up exactly when the clock has reached the deadline. -/
theorem noExpiry_recvTurn_iff (conn : Conn) (deadlineMs : Int) (length : Nat) :
    conn.NoExpiry (recvTurn conn deadlineMs length).2 ↔ conn.nowMs < deadlineMs := by
  obtain ⟨hge, hturn⟩ | ⟨hlt, -, hturn⟩ | ⟨hlt, -, hturn⟩ := recvTurn_cases conn deadlineMs length
  · have hnot : ¬ conn.nowMs < deadlineMs := by omega
    simp [hturn, hnot, Conn.NoExpiry, Conn.emit, Conn.tick]
  · simp [hturn, hlt, Conn.NoExpiry, Conn.tick]
  · have hlog : ∃ bytes, (mnetRecv conn.tick conn.nowMs length).2.log =
        conn.log ++ [.recv conn.nowMs (recvLength length) bytes] := by
      unfold mnetRecv
      split
      · exact ⟨_, rfl⟩
      · exact ⟨_, rfl⟩
    obtain ⟨bytes, hlog⟩ := hlog
    rw [hturn, Conn.noExpiry_iff hlog]
    simp [hlt]

/-- While bytes are delivered and the deadline is not reached, a turn of a
    receive loop gets something. -/
theorem recvTurn_ne_nil {conn : Conn} {deadlineMs : Int} {n : Nat} (length : Nat)
    (hdel : conn.Delivers n) (hn : 0 < n) (hlen : 0 < recvLength length)
    (hnow : conn.nowMs < deadlineMs) : (recvTurn conn deadlineMs length).1 ≠ [] := by
  obtain ⟨bytes, rest, harr, hne⟩ :
      ∃ bytes rest, conn.arrivals = .segment bytes :: rest ∧ bytes ≠ [] := by
    unfold Conn.Delivers at hdel
    cases harr : conn.arrivals with
    | nil => cases n <;> simp [harr, delivers] at hn hdel
    | cons a rest =>
        cases a with
        | segment bytes =>
            rw [harr, delivers_segment] at hdel
            obtain rfl | ⟨hne, -⟩ := hdel
            · exact absurd hn (Nat.lt_irrefl _)
            · exact ⟨bytes, rest, rfl, hne⟩
        | silence | pollError | recvError => cases n <;> simp [harr, delivers] at hn hdel
  obtain ⟨hge, -⟩ | ⟨-, hpoll, -⟩ | ⟨-, -, h⟩ := recvTurn_cases conn deadlineMs length
  · omega
  · exact absurd hpoll (by simp [mnetPoll, harr])
  · rw [h]
    simp only [mnetRecv, Conn.tick, harr]
    rw [ne_eq, List.take_eq_nil_iff]
    rintro (h | h)
    · omega
    · exact hne h

end Mnet
