/-
  Mnet.ClientResources

  `mnet_call` with everything it takes from the system: address lists, sockets
  and memory, any of which may be refused.

  The block `raw` is the `RawBuffer` of `mnet_read_response` put on the heap
  (`HoldsRaw`), and the receive loop on the heap follows the one on lists until a
  request for memory is refused (`readRawMem_spec`).  In the end only the body is
  left, and it is the one `mnetCall` returns (`callSound`).
-/

import Mnet.Client
import Mnet.Sockets

namespace Mnet

open Heap (Answer Owns Short)

-- ============================================================================
-- The functions
-- ============================================================================

/-- `raw`, `raw_len` and `raw_cap`. -/
structure RawBlock where
  raw : Option Nat := none
  rawLen : Nat := 0
  rawCap : Nat := 0

/-- The bytes the block holds. -/
def RawBlock.bytes (b : RawBlock) (heap : Heap Bytes) : Bytes :=
  (b.raw.bind heap.blocks).getD []

/-- Append what was received: `realloc` where it does not fit, and `memcpy`.
    Without memory the block is freed. -/
def storeRaw (answers : Nat → Answer) (heap : Heap Bytes) (b : RawBlock) (got : Bytes) :
    Option RawBlock × Heap Bytes :=
  if b.rawLen + got.length > b.rawCap then
    let ncap := growCap (if b.rawCap = 0 then 16384 else b.rawCap * 2) (b.rawLen + got.length)
    match Heap.realloc answers heap b.raw ncap (b.bytes heap) with
    | (none, heap) => (none, heap.free b.raw)
    | (some q, heap) =>
        (some { raw := some q, rawLen := b.rawLen + got.length, rawCap := ncap },
          heap.modify q (· ++ got))
  else
    match b.raw with
    | none => (some b, heap)
    | some p => (some { b with rawLen := b.rawLen + got.length }, heap.modify p (· ++ got))

/-- The receive loop of `mnet_read_response`; none where it has freed the block
    and fails. -/
def readRawMem (answers : Nat → Answer) (cap : Nat) (arrivals : List ClientArrival)
    (heap : Heap Bytes) (b : RawBlock) : Option RawBlock × Heap Bytes :=
  if b.rawLen < cap then
    match arrivals with
    | [] => (some b, heap)
    | .failed :: _ => (none, heap.free b.raw)
    | .interrupted :: rest => readRawMem answers cap rest heap b
    | .bytes text :: rest =>
        let got := text.take CLIENT_BUFFER_SIZE
        let left := text.drop CLIENT_BUFFER_SIZE
        if got = [] then (some b, heap)
        else
          match storeRaw answers heap b got with
          | (none, heap) => (none, heap)
          | (some b, heap) =>
              if left = [] then readRawMem answers cap rest heap b
              else readRawMem answers cap (.bytes left :: rest) heap b
  else (some b, heap)
termination_by (arrivals.map ClientArrival.size).sum
decreasing_by
  · simp [ClientArrival.size]
  · simp [ClientArrival.size]
  · have hsize : 0 < CLIENT_BUFFER_SIZE := by decide
    have hpos : 0 < text.length := by
      rw [List.length_pos_iff]
      rintro rfl
      simp [left] at *
    simp only [List.map_cons, List.sum_cons, ClientArrival.size, List.length_drop]
    omega

/-- `mnet_read_response`: status and body, a block that ends in a NUL. -/
def mnetReadResponseMem (answers : Nat → Answer) (arrivals : List ClientArrival) (maxBody : Nat)
    (heap : Heap Bytes) : Option (Int × Nat) × Heap Bytes :=
  match readRawMem answers ((maxBody + CLIENT_BUFFER_SIZE) % SIZE_T) arrivals heap {} with
  | (none, heap) => (none, heap)
  | (some b, heap) =>
      match b.raw with
      | none => (none, heap)
      | some p =>
          let bytes := b.bytes heap
          let bodyOff := (findBody bytes 0).getD bytes.length
          let body := (bytes.drop bodyOff).take maxBody
          match Heap.malloc answers heap (body.length + 1) (body ++ [0]) with
          | (none, heap) => (none, heap.release p)
          | (some q, heap) => (some (responseStatus bytes, q), heap.release p)

/-- What the system answers to a call. -/
structure ClientWorld where
  getaddrinfo : Bytes → Nat → Option (List ConnectAddress)
  /-- whether `mnet_send` succeeds -/
  sends : Bytes → Bool
  arrivals : List ClientArrival
  memory : Nat → Answer

/-- What a client process holds. -/
structure ClientState where
  heap : Heap Bytes
  table : SocketTable ConnectAddress

/-- `mnet_close`. -/
def ClientState.close (s : ClientState) (sock : Nat) : ClientState :=
  { s with table := { s.table with sockets := s.table.sockets.release sock } }

/-- `mnet_call`: the block of the body, none for NULL. -/
def mnetCallMem (w : ClientWorld) (url : Option Bytes) (s : ClientState) :
    Option Nat × ClientState :=
  match url.bind fun url => mnetUrlParse url 1024 2048 with
  | none => (none, s)
  | some parts =>
      match mnetSocketConnect w.getaddrinfo (some parts.host) parts.port s.table with
      | (none, table) => (none, { s with table := table })
      | (some sock, table) =>
          let s : ClientState := { s with table := table }
          let req := callText parts.host parts.path
          if req.length ≥ 4096 then (none, s.close sock)
          else if !w.sends req then (none, s.close sock)
          else
            match mnetReadResponseMem w.memory w.arrivals MNET_MAX_BODY_SIZE s.heap with
            | (none, heap) => (none, { s with heap := heap }.close sock)
            | (some (status, q), heap) =>
                if status ≥ 400 then (none, { s with heap := heap.release q }.close sock)
                else (some q, { s with heap := heap }.close sock)

/-- The text of a string on the heap, up to its NUL. -/
def stringAt (heap : Heap Bytes) (p : Nat) : Option Bytes := (heap.blocks p).map cstr

/-- `mnet_call_async`: what `callback` is called with, if it is, and the state
    behind the call. -/
def mnetCallAsync (w : ClientWorld) (url : Option Bytes) (callback : Bool) (s : ClientState) :
    List (Option Bytes) × ClientState :=
  if url = none ∨ callback = false then ([], s)
  else
    let (body, s) := mnetCallMem w url s
    ([body.bind (stringAt s.heap)], { s with heap := s.heap.free body })

-- ============================================================================
-- The receive loop
-- ============================================================================

/-- The block on the heap is the buffer. -/
structure HoldsRaw (heap : Heap Bytes) (b : RawBlock) (raw : RawBuffer) : Prop where
  content : ∀ p, b.raw = some p → heap.blocks p = some raw.bytes
  null : b.raw = none ↔ raw.cap = 0
  len : b.rawLen = raw.bytes.length
  cap : b.rawCap = raw.cap

theorem HoldsRaw.bytes_eq {heap : Heap Bytes} {b : RawBlock} {raw : RawBuffer}
    (h : HoldsRaw heap b raw) :
    b.bytes heap = raw.bytes := by
  rw [RawBlock.bytes]
  cases hraw : b.raw with
  | none =>
      have hfits := raw.fits
      rw [h.null.mp hraw] at hfits
      exact (List.eq_nil_of_length_eq_zero (Nat.le_zero.mp hfits)).symm
  | some p =>
      rw [Option.bind_some, h.content p hraw]
      rfl

/-- The heap follows the lists: the same buffer, or none where there is none or
    a request for memory fails; a buffer that is given up is freed. -/
def Follows (h₀ : Heap Bytes) (own : List Nat) (answers : Nat → Answer) (limit : Nat) :
    Option RawBlock × Heap Bytes → Option RawBuffer → Prop
  | (none, heap), expected => Owns h₀ heap own ∧ (expected = none ∨ Short answers h₀ heap limit)
  | (some b, heap), expected =>
      Owns h₀ heap (b.raw.toList ++ own) ∧ ∃ raw, expected = some raw ∧ HoldsRaw heap b raw

theorem Follows.mono {h₀ : Heap Bytes} {own : List Nat} {answers : Nat → Answer}
    {limit limit' : Nat} {result : Option RawBlock × Heap Bytes} {expected : Option RawBuffer}
    (h : Follows h₀ own answers limit result expected) (hle : limit ≤ limit') :
    Follows h₀ own answers limit' result expected := by
  obtain ⟨b, heap⟩ := result
  cases b with
  | none => exact ⟨h.1, h.2.imp_right fun hs => hs.mono hle⟩
  | some b => exact h

theorem growCap_le {ncap : Nat} (h : 0 < ncap) (need : Nat) :
    growCap ncap need ≤ max ncap (2 * need) := by
  fun_induction growCap ncap need with
  | case1 ncap hlt ih =>
      have hle := ih (by omega)
      omega
  | case2 ncap hge => exact Nat.le_max_left _ _

theorem storeRaw_follows {h₀ heap : Heap Bytes} {own : List Nat} (answers : Nat → Answer)
    {b : RawBlock} {raw : RawBuffer} {got : Bytes} (ho : Owns h₀ heap (b.raw.toList ++ own))
    (hb : HoldsRaw heap b raw) (hgot : got ≠ []) :
    Follows h₀ own answers (max 16384 (2 * (raw.bytes.length + got.length)))
      (storeRaw answers heap b got) (some (raw.append got)) := by
  have hpos := List.length_pos_iff.mpr hgot
  have hlen : b.rawLen + got.length = raw.bytes.length + got.length := by rw [hb.len]
  rw [storeRaw, RawBuffer.append]
  by_cases hgrow : raw.bytes.length + got.length > raw.cap
  · have hgrow' : b.rawLen + got.length > b.rawCap := by rw [hlen, hb.cap]; exact hgrow
    rw [if_pos hgrow', dif_pos hgrow, hb.bytes_eq, hb.cap, hlen]
    dsimp only
    have hstart : 0 < (if raw.cap = 0 then 16384 else raw.cap * 2) := by split <;> omega
    have hle := growCap_le hstart (raw.bytes.length + got.length)
    obtain ⟨heap', hno, howns, hreason⟩ | ⟨q, heap', hyes, howns, hcontent⟩ :=
      ho.realloc answers
        (growCap (if raw.cap = 0 then 16384 else raw.cap * 2) (raw.bytes.length + got.length))
        raw.bytes
    · rw [hno]
      have hlimit := hreason.mono (Nat.le_trans hle
        (show _ ≤ max 16384 (2 * (raw.bytes.length + got.length)) by split <;> omega))
      refine ⟨howns.free, .inr (hlimit.within (Nat.le_refl _) ?_)⟩
      rw [Heap.asked_free]
    · rw [hyes]
      refine ⟨howns.modify (List.mem_cons_self ..) _, _, rfl, ?_⟩
      constructor
      · intro p hp
        obtain rfl : q = p := Option.some.inj hp
        rw [Heap.modify_self, hcontent]
        rfl
      · refine iff_of_false nofun ?_
        have hneed := le_growCap hstart (raw.bytes.length + got.length)
        show ¬ growCap _ _ = 0
        omega
      · exact (List.length_append ..).symm
      · rfl
  · have hgrow' : ¬ b.rawLen + got.length > b.rawCap := by rw [hlen, hb.cap]; exact hgrow
    rw [if_neg hgrow', dif_neg hgrow]
    cases hraw : b.raw with
    | none =>
        have hcap := hb.null.mp hraw
        omega
    | some p =>
        rw [hraw] at ho
        refine ⟨ho.modify (List.mem_cons_self ..) _, _, rfl, ?_⟩
        constructor
        · intro q hq
          obtain rfl : p = q := Option.some.inj hq
          rw [Heap.modify_self, hb.content p hraw]
          rfl
        · exact iff_of_false nofun fun hcap =>
            Option.some_ne_none p (hraw.symm.trans (hb.null.mpr hcap))
        · show b.rawLen + got.length = (raw.bytes ++ got).length
          rw [hlen, List.length_append]
        · exact hb.cap

/-- The loop on the heap follows the loop on lists. -/
theorem readRawMem_follows {h₀ heap : Heap Bytes} {own : List Nat} (answers : Nat → Answer)
    (cap : Nat) (arrivals : List ClientArrival) {b : RawBlock} {raw : RawBuffer}
    (ho : Owns h₀ heap (b.raw.toList ++ own)) (hb : HoldsRaw heap b raw) :
    Follows h₀ own answers (max 16384 (2 * (cap + CLIENT_BUFFER_SIZE)))
      (readRawMem answers cap arrivals heap b) (readRaw cap arrivals raw) := by
  have hlimit : ∀ {heap : Heap Bytes} {b : RawBlock} {raw : RawBuffer} {text : Bytes} {result}
      {expected}, Follows h₀ own answers
        (max 16384 (2 * (raw.bytes.length + (text.take CLIENT_BUFFER_SIZE).length))) result
        expected → HoldsRaw heap b raw → b.rawLen < cap →
      Follows h₀ own answers (max 16384 (2 * (cap + CLIENT_BUFFER_SIZE))) result expected := by
    intro heap b raw text result expected hfollows hb hlt
    refine hfollows.mono ?_
    have hlen := hb.len
    have htake := List.length_take_le CLIENT_BUFFER_SIZE text
    omega
  fun_induction readRawMem answers cap arrivals heap b generalizing raw with
  | case1 heap b hlt =>
      rw [readRaw, if_pos (hb.len ▸ hlt)]
      exact ⟨ho, raw, rfl, hb⟩
  | case2 heap b hlt rest =>
      rw [readRaw, if_pos (hb.len ▸ hlt)]
      exact ⟨ho.free, .inl rfl⟩
  | case3 heap b hlt rest ih =>
      rw [readRaw, if_pos (hb.len ▸ hlt)]
      exact ih ho hb
  | case4 =>
      rename_i heap b hlt text rest got hnil
      rw [readRaw, if_pos (hb.len ▸ hlt)]
      exact ⟨ho, raw, if_pos hnil, hb⟩
  | case5 =>
      rename_i heap b hlt text rest got hgot heap' hno
      have hstore := hlimit (storeRaw_follows answers ho hb hgot) hb hlt
      rw [hno] at hstore
      obtain ⟨howns, hreason⟩ := hstore
      exact ⟨howns, .inr (hreason.resolve_left (Option.some_ne_none _))⟩
  | case6 =>
      rename_i heap b hlt text rest got left hgot b' heap' hyes hleft ih
      have hstore := hlimit (storeRaw_follows answers ho hb hgot) hb hlt
      rw [hyes] at hstore
      obtain ⟨howns, raw', hraw', hb'⟩ := hstore
      obtain rfl := Option.some.inj hraw'
      rw [readRaw, if_pos (hb.len ▸ hlt)]
      dsimp only
      rw [if_neg hgot, if_pos hleft]
      exact ih howns hb'
  | case7 =>
      rename_i heap b hlt text rest got left hgot b' heap' hyes hleft ih
      have hstore := hlimit (storeRaw_follows answers ho hb hgot) hb hlt
      rw [hyes] at hstore
      obtain ⟨howns, raw', hraw', hb'⟩ := hstore
      obtain rfl := Option.some.inj hraw'
      rw [readRaw, if_pos (hb.len ▸ hlt)]
      dsimp only
      rw [if_neg hgot, if_neg hleft]
      exact ih howns hb'
  | case8 arrivals heap b hge =>
      rw [readRaw.eq_def, if_neg (hb.len ▸ hge)]
      exact ⟨ho, raw, rfl, hb⟩

-- ============================================================================
-- The response
-- ============================================================================

/-- The largest request for memory of `mnet_read_response`. -/
def readLimit (maxBody : Nat) : Nat := max 16384 (2 * (maxBody + 2 * CLIENT_BUFFER_SIZE))

/-- Of `mnet_read_response` only the body is left, which is the one the lists
    give. -/
def ReadSound (h₀ : Heap Bytes) (answers : Nat → Answer) (maxBody : Nat) :
    Option (Int × Nat) × Heap Bytes → Option (Int × Bytes) → Prop
  | (none, heap), expected =>
      Owns h₀ heap [] ∧ (expected = none ∨ Short answers h₀ heap (readLimit maxBody))
  | (some (status, q), heap), expected =>
      Owns h₀ heap [q] ∧ ∃ body, heap.blocks q = some (body ++ [0]) ∧ expected = some (status, body)

theorem readSound_mnetReadResponseMem (answers : Nat → Answer) (arrivals : List ClientArrival)
    (maxBody : Nat) (heap : Heap Bytes) :
    ReadSound heap answers maxBody (mnetReadResponseMem answers arrivals maxBody heap)
      (mnetReadResponse arrivals maxBody) := by
  have hcap : (maxBody + CLIENT_BUFFER_SIZE) % SIZE_T ≤ maxBody + CLIENT_BUFFER_SIZE :=
    Nat.mod_le _ _
  have hempty : HoldsRaw heap {} {} := ⟨nofun, iff_of_true rfl rfl, rfl, rfl⟩
  have hloop := readRawMem_follows answers ((maxBody + CLIENT_BUFFER_SIZE) % SIZE_T) arrivals
    (Owns.refl heap) hempty
  rw [mnetReadResponseMem, mnetReadResponse]
  rcases hmem : readRawMem answers ((maxBody + CLIENT_BUFFER_SIZE) % SIZE_T) arrivals heap {} with
    ⟨b, heap'⟩
  rw [hmem] at hloop
  cases b with
  | none =>
      obtain ⟨howns, hreason⟩ := hloop
      refine ⟨howns, hreason.imp (fun hnone => ?_) fun hs => hs.mono ?_⟩
      · rw [hnone]
      · rw [readLimit]
        omega
  | some b =>
      obtain ⟨howns, raw, hraw, hb⟩ := hloop
      rw [hraw]
      dsimp only
      cases hptr : b.raw with
      | none =>
          rw [hptr] at howns
          rw [if_pos (hb.null.mp hptr)]
          exact ⟨howns, .inl rfl⟩
      | some p =>
          have hsome : ¬ raw.cap = 0 := fun hcap =>
            Option.some_ne_none p (hptr.symm.trans (hb.null.mpr hcap))
          rw [hptr] at howns
          rw [if_neg hsome, hb.bytes_eq]
          generalize hbody : (raw.bytes.drop ((findBody raw.bytes 0).getD raw.bytes.length)).take
            maxBody = body
          have hlen : body.length ≤ maxBody := hbody ▸ List.length_take_le _ _
          dsimp only
          obtain hno | ⟨hyes, -⟩ :=
            Heap.malloc_cases answers heap' (body.length + 1) (body ++ [0])
          · rw [hno]
            refine ⟨(howns.ask _).release, .inr ((howns.earlier (Heap.short_of_malloc hno)).mono ?_)⟩
            rw [readLimit]
            omega
          · rw [hyes]
            have hnew := (howns.ask (body.length + 1)).alloc (body ++ [0])
            have hperm := hnew.perm (List.Perm.swap _ _ _)
            refine ⟨hperm.release, body, ?_, rfl⟩
            rw [Heap.release_of_ne _ (Nat.ne_of_gt (howns.lt_next (List.mem_cons_self ..)))]
            exact Heap.alloc_next (heap'.ask (body.length + 1)) _

-- ============================================================================
-- The call
-- ============================================================================

/-- The system meets every request of a call: the host resolves to an address
    that can be connected to, and the request is sent. -/
def Reached (w : ClientWorld) (url : Bytes) : Prop :=
  ∃ parts as, mnetUrlParse url 1024 2048 = some parts ∧
    w.getaddrinfo parts.host parts.port = some as ∧ (∃ a ∈ as, a.lets = true) ∧
    w.sends (callText parts.host parts.path) = true ∧ ∀ n, w.memory n ≠ .refused

/-- A call closes the sockets it has opened and frees what it was given, each
    once, but for the body.  The body is that of `mnetCall`, and it is there when
    the system meets every request. -/
structure CallSound (w : ClientWorld) (url : Option Bytes) (s s' : ClientState)
    (result : Option Nat) : Prop where
  sockets : Heap.Balanced s.table.sockets s'.table.sockets
  lists : Heap.Balanced s.table.lists s'.table.lists
  memory : Owns s.heap s'.heap result.toList
  body : ∀ q, result = some q → ∃ u text, url = some u ∧ mnetCall u w.arrivals = some text ∧
    s'.heap.blocks q = some (text ++ [0])
  complete : ∀ u, url = some u → Reached w u → result = none → mnetCall u w.arrivals = none

theorem callRequest_eq {url : Bytes} {parts : UrlParts}
    (h : mnetUrlParse url 1024 2048 = some parts) :
    callRequest url = if (callText parts.host parts.path).length ≥ 4096 then none
      else some (callText parts.host parts.path) := by
  rw [callRequest, h]

theorem callSound_mnetCallMem (w : ClientWorld) (url : Option Bytes) (s : ClientState) :
    CallSound w url s (mnetCallMem w url s).2 (mnetCallMem w url s).1 := by
  rw [mnetCallMem]
  cases hparse : url.bind fun url => mnetUrlParse url 1024 2048 with
  | none =>
      refine ⟨(Owns.refl _).balanced, (Owns.refl _).balanced, Owns.refl _, nofun, ?_⟩
      rintro u rfl ⟨parts, as, hparts, -⟩
      exact absurd (hparse.symm.trans hparts) (by simp)
  | some parts =>
      obtain ⟨u, rfl, hparts⟩ := Option.bind_eq_some_iff.mp hparse
      have hrequest := callRequest_eq hparts
      have hsettled := settled_mnetSocketConnect w.getaddrinfo parts.host parts.port s.table
      dsimp only
      rcases hconnect : mnetSocketConnect w.getaddrinfo (some parts.host) parts.port s.table with
        ⟨sock, table⟩
      rw [hconnect] at hsettled
      cases sock with
      | none =>
          refine ⟨hsettled.sockets.balanced, hsettled.lists.balanced, Owns.refl _, nofun, ?_⟩
          rintro u' ⟨⟩ ⟨parts', as, hparts', haddr, ⟨a, ha, hlets⟩, -⟩
          obtain rfl := Option.some.inj (hparts.symm.trans hparts')
          have hfirst := hsettled.first.symm
          rw [haddr] at hfirst
          exact absurd hlets (by simpa using List.find?_eq_none.mp hfirst a ha)
      | some sock =>
          have hsockets := hsettled.sockets.release.balanced
          have hlists := hsettled.lists.balanced
          dsimp only
          by_cases hfull : (callText parts.host parts.path).length ≥ 4096
          · rw [if_pos hfull] at hrequest ⊢
            refine ⟨hsockets, hlists, Owns.refl _, nofun, ?_⟩
            rintro u' ⟨⟩ - -
            rw [mnetCall, hrequest]
          · rw [if_neg hfull] at hrequest ⊢
            cases hsends : w.sends (callText parts.host parts.path) with
            | false =>
                refine ⟨hsockets, hlists, Owns.refl _, nofun, ?_⟩
                rintro u' ⟨⟩ ⟨parts', as, hparts', -, -, hsent, -⟩
                obtain rfl := Option.some.inj (hparts.symm.trans hparts')
                rw [hsends] at hsent
                exact Bool.noConfusion hsent
            | true =>
                have hread := readSound_mnetReadResponseMem w.memory w.arrivals MNET_MAX_BODY_SIZE
                  s.heap
                rw [Bool.not_true, if_neg Bool.false_ne_true]
                rcases hmem : mnetReadResponseMem w.memory w.arrivals MNET_MAX_BODY_SIZE s.heap with
                  ⟨read, heap⟩
                rw [hmem] at hread
                cases read with
                | none =>
                    obtain ⟨howns, hreason⟩ := hread
                    refine ⟨hsockets, hlists, howns, nofun, ?_⟩
                    rintro u' ⟨⟩ ⟨-, -, -, -, -, -, hmet⟩ -
                    obtain hnone | ⟨n, -, -, hn⟩ | hlarge := hreason
                    · rw [mnetCall, hrequest, hnone]
                    · exact absurd hn (hmet n)
                    · exact absurd hlarge (by decide)
                | some found =>
                    obtain ⟨status, q⟩ := found
                    obtain ⟨howns, body, hblock, hexpected⟩ := hread
                    have hcall : mnetCall u w.arrivals =
                        if status ≥ 400 then none else some body := by
                      rw [mnetCall, hrequest, hexpected]
                    dsimp only
                    by_cases hstatus : status ≥ 400
                    · rw [if_pos hstatus] at hcall ⊢
                      refine ⟨hsockets, hlists, howns.release, nofun, ?_⟩
                      rintro u' ⟨⟩ - -
                      exact hcall
                    · rw [if_neg hstatus] at hcall ⊢
                      refine ⟨hsockets, hlists, howns, ?_, fun _ _ _ => nofun⟩
                      rintro q' ⟨⟩
                      exact ⟨u, body, rfl, hcall, hblock⟩

/-- A call with a callback leaves nothing behind, and calls it once, with NULL
    or the body as a string. -/
structure AsyncSound (w : ClientWorld) (url : Option Bytes) (callback : Bool) (s s' : ClientState)
    (calls : List (Option Bytes)) : Prop where
  sockets : Heap.Balanced s.table.sockets s'.table.sockets
  lists : Heap.Balanced s.table.lists s'.table.lists
  memory : Heap.Balanced s.heap s'.heap
  silent : url = none ∨ callback = false → calls = []
  called : ∀ u, url = some u → callback = true → ∃ r, calls = [r] ∧
    (∀ string, r = some string → ∃ text, mnetCall u w.arrivals = some text ∧ string = cstr text) ∧
    (Reached w u → r = none → mnetCall u w.arrivals = none)

theorem cstr_append_zero (text : Bytes) : cstr (text ++ [0]) = cstr text := by
  have hzero : ([0] : Bytes).takeWhile (fun b => decide (b ≠ 0)) = [] := by decide
  rw [cstr, cstr, List.takeWhile_append, hzero, List.append_nil]
  split
  · next h => exact ((List.takeWhile_prefix _).eq_of_length h).symm
  · rfl

/-- Whatever the system refuses, a call leaves nothing behind but the body it
    returns, and no body is other than the server's. -/
theorem callSound (w : ClientWorld) (url : Option Bytes) (callback : Bool) (s : ClientState) :
    CallSound w url s (mnetCallMem w url s).2 (mnetCallMem w url s).1 ∧
      AsyncSound w url callback s (mnetCallAsync w url callback s).2
        (mnetCallAsync w url callback s).1 := by
  have hcall := callSound_mnetCallMem w url s
  refine ⟨hcall, ?_⟩
  rw [mnetCallAsync]
  by_cases hsilent : url = none ∨ callback = false
  · rw [if_pos hsilent]
    refine ⟨(Owns.refl _).balanced, (Owns.refl _).balanced, (Owns.refl _).balanced,
      fun _ => rfl, ?_⟩
    rintro u rfl rfl
    simp at hsilent
  · rw [if_neg hsilent]
    rcases hresult : mnetCallMem w url s with ⟨body, s'⟩
    rw [hresult] at hcall
    have howns : Owns s.heap s'.heap (body.toList ++ []) := by
      rw [List.append_nil]
      exact hcall.memory
    refine ⟨hcall.sockets, hcall.lists, howns.free.balanced, fun h => absurd h hsilent, ?_⟩
    intro u hurl _
    refine ⟨_, rfl, ?_, fun hreached hnone => hcall.complete u hurl hreached ?_⟩
    · intro string hstring
      obtain ⟨q, hq, hat⟩ := Option.bind_eq_some_iff.mp hstring
      obtain ⟨u', text, hurl', htext, hblock⟩ := hcall.body q hq
      obtain rfl := Option.some.inj (hurl.symm.trans hurl')
      refine ⟨text, htext, ?_⟩
      rw [stringAt, hblock, Option.map_some, cstr_append_zero] at hat
      exact (Option.some.inj hat).symm
    · cases body with
      | none => rfl
      | some q =>
          obtain ⟨u', text, -, -, hblock⟩ := hcall.body q rfl
          have hat : (some q).bind (stringAt s'.heap) = some (cstr text) := by
            rw [Option.bind_some, stringAt, hblock, Option.map_some, cstr_append_zero]
          exact absurd (hat.symm.trans hnone) (by simp)

end Mnet
