/-
  Mnet.RequestMemory

  `parse_request` on the heap: the copies the parsers work on, the arrays of
  names and values, and what becomes of them when a request for memory fails.

  The texts are those of `Mnet.Parse`.  A parser that runs out of memory has to
  release the arrays it has begun; `parse_request` goes on without them, but for
  those of the headers.
-/

import Mnet.Lib.Ownership
import Mnet.LengthLimit
import Mnet.AtomicRegistration

namespace Mnet

open Heap (Answer malloc Owns Short)

-- ============================================================================
-- Arrays of names and values
-- ============================================================================

/-- The two arrays of `request_extras_t` for one kind of field, and how many
    entries count. -/
structure PairArrays where
  names : Option Nat := none
  values : Option Nat := none
  count : Nat := 0
deriving DecidableEq, Repr

/-- What `strdup` has returned, as an entry of an array. -/
def cellOf : Option Nat → NameCell
  | none => .null
  | some p => .name p

def freeCell (heap : Heap Block) : Option NameCell → Heap Block
  | some (.name p) => heap.release p
  | _ => heap

/-- `free(names[i]); free(values[i]);` -/
def freePairAt (heap : Heap Block) (names values i : Nat) : Heap Block :=
  let heap := freeCell heap (nameCells heap (some names))[i]?
  freeCell heap (nameCells heap (some values))[i]?

/-- That for `n` entries from `i` on. -/
def freePairs (heap : Heap Block) (names values i : Nat) : Nat → Heap Block
  | 0 => heap
  | n + 1 => freePairs (freePairAt heap names values i) names values (i + 1) n

/-- Releasing entries asks for nothing. -/
theorem asked_freePairAt (heap : Heap Block) (names values i : Nat) :
    (freePairAt heap names values i).asked = heap.asked := by
  have hcell : ∀ (heap : Heap Block) cell, (freeCell heap cell).asked = heap.asked := by
    intro heap cell
    unfold freeCell
    split
    · rfl
    · rfl
  rw [freePairAt, hcell, hcell]

theorem asked_freePairs (heap : Heap Block) (names values i n : Nat) :
    (freePairs heap names values i n).asked = heap.asked := by
  induction n generalizing heap i with
  | zero => rfl
  | succ n ih => rw [freePairs, ih, asked_freePairAt]

/-- The entries of two arrays, and the arrays. -/
def freeArrays (heap : Heap Block) (a : PairArrays) : Heap Block :=
  match a.names, a.values with
  | some names, some values =>
      ((freePairs heap names values 0 a.count).release names).release values
  | names, values => (heap.free names).free values

-- ============================================================================
-- The loops of the parsers
-- ============================================================================

/-- What a parser does with a token, by how many entries it has. -/
inductive PairAction where
  | stop
  | skip
  | refuse
  | store (name value : Bytes) (fits : Bool)

/-- `names[idx] = strdup(name); values[idx] = strdup(value);`, and neither where
    one of them fails. -/
def storePair (answers : Nat → Answer) (heap : Heap Block) (names values idx : Nat)
    (name value : Bytes) : Bool × Heap Block :=
  match strdup answers heap name with
  | (nameCopy, heap) =>
      match strdup answers (heap.modify names (setCell idx (cellOf nameCopy))) value with
      | (valueCopy, heap) =>
          let heap := heap.modify values (setCell idx (cellOf valueCopy))
          if nameCopy = none ∨ valueCopy = none then (false, freePairAt heap names values idx)
          else (true, heap)

def mapText (f : Bytes → Bytes) : Block → Block
  | .text s => .text (f s)
  | b => b

def rewriteCell (finish : Bytes → Bytes) (heap : Heap Block) : Option NameCell → Heap Block
  | some (.name p) => heap.modify p (mapText finish)
  | _ => heap

/-- Both strings of an entry, rewritten where they are. -/
def rewritePairAt (finish : Bytes → Bytes) (heap : Heap Block) (names values idx : Nat) :
    Heap Block :=
  let heap := rewriteCell finish heap (nameCells heap (some names))[idx]?
  rewriteCell finish heap (nameCells heap (some values))[idx]?

/-- The loop over the tokens: the number of entries, or none with the entries
    released. -/
def storePairs (answers : Nat → Answer) (action : Nat → Bytes → PairAction)
    (finish : Bytes → Bytes) (names values : Nat) :
    List Bytes → Nat → Heap Block → Option Nat × Heap Block
  | [], idx, heap => (some idx, heap)
  | token :: tokens, idx, heap =>
      match action idx token with
      | .stop => (some idx, heap)
      | .skip => storePairs answers action finish names values tokens idx heap
      | .refuse => (none, freePairs heap names values 0 idx)
      | .store name value fits =>
          match storePair answers heap names values idx name value with
          | (false, heap) => (none, freePairs heap names values 0 idx)
          | (true, heap) =>
              if fits then
                storePairs answers action finish names values tokens (idx + 1)
                  (rewritePairAt finish heap names values idx)
              else (none, freePairs (freePairAt heap names values idx) names values 0 idx)

/-- An array of `n` pointers, with nothing written to it. -/
def mallocArray (answers : Nat → Answer) (heap : Heap Block) (n : Nat) :
    Option Nat × Heap Block :=
  malloc answers heap (sizeMul n POINTER_SIZE) (.names (List.replicate n .unset))

/-- What the three parsers do: the arrays, the copy the tokens are cut from, the
    loop.  None is failure, with nothing left. -/
def readPairs (answers : Nat → Answer) (action : Nat → Bytes → PairAction)
    (finish : Bytes → Bytes) (capacity : Nat) (seps text : Bytes) (heap : Heap Block) :
    Option PairArrays × Heap Block :=
  match mallocArray answers heap capacity with
  | (names, heap) =>
      match mallocArray answers heap capacity with
      | (values, heap) =>
          match names, values with
          | some names, some values =>
              match strdup answers heap text with
              | (none, heap) => (none, (heap.release names).release values)
              | (some copy, heap) =>
                  match storePairs answers action finish names values (strtok text seps) 0 heap with
                  | (none, heap) => (none, ((heap.release names).release values).release copy)
                  | (some count, heap) => (some ⟨some names, some values, count⟩, heap.release copy)
          | names, values => (none, (heap.free names).free values)

-- ============================================================================
-- The three parsers
-- ============================================================================

def queryAction (count idx : Nat) (token : Bytes) : PairAction :=
  if idx ≥ count then .stop
  else
    let (name, value) := splitAtByte 61 token
    let value := value.getD []
    .store name value
      (decide (name.length ≤ MNET_MAX_QUERY_NAME ∧ value.length ≤ MNET_MAX_QUERY_VALUE))

/-- `mnet_url_decode(s, strlen(s) + 1, s)`. -/
def decodeText (s : Bytes) : Bytes := mnetUrlDecode (s.length + 1) s

/-- `parse_query_string`. -/
def parseQueryStringMem (answers : Nat → Answer) (qs : Bytes) (heap : Heap Block) :
    Option PairArrays × Heap Block :=
  if qs = [] then (some {}, heap)
  else
    let count := 1 + qs.count 38
    let count := if count > MNET_MAX_QUERY then MNET_MAX_QUERY else count
    readPairs answers (queryAction count) decodeText count (ascii "&") qs heap

def headerAction (count : Nat) (line : Bytes) : PairAction :=
  if count ≥ MNET_MAX_HEADERS then .refuse
  else if line.length ≥ MNET_MAX_HEADER_LINE then .refuse
  else
    match headerField line with
    | some (name, value) => .store name value true
    | none => .skip

/-- `parse_headers`. -/
def parseHeadersMem (answers : Nat → Answer) (headersRaw : Bytes) (heap : Heap Block) :
    Option PairArrays × Heap Block :=
  if headersRaw = [] then (some {}, heap)
  else readPairs answers headerAction id MNET_MAX_HEADERS CRLF headersRaw heap

def cookieAction (count idx : Nat) (token : Bytes) : PairAction :=
  if idx ≥ count then .stop
  else .store (cookiePair token).1 (cookiePair token).2 true

/-- `parse_cookies`. -/
def parseCookiesMem (answers : Nat → Answer) (cookieHeader : Bytes) (heap : Heap Block) :
    PairArrays × Heap Block :=
  if cookieHeader = [] then ({}, heap)
  else
    let count := 1 + cookieHeader.count 59
    match readPairs answers (cookieAction count) id count (ascii ";") cookieHeader heap with
    | (none, heap) => ({}, heap)
    | (some a, heap) => (a, heap)

-- ============================================================================
-- The body
-- ============================================================================

/-- `read_full_body`, with the block it has allocated for the body. -/
def readFullBodyMem (answers : Nat → Answer) (heap : Heap Block) (conn : Conn) (buffer : Bytes)
    (initialReceived maxBodySize : Nat) (timeoutMs : Int) :
    BodyResult × Option Nat × Conn × Heap Block :=
  match endOfHeaders buffer with
  | none => ({ code := -1 }, none, conn, heap)
  | some (headerEnd, sepLen) =>
      let bodyOffset := headerEnd + sepLen
      let initialBodyLen := initialReceived - bodyOffset
      match contentLength buffer headerEnd maxBodySize with
      | .error code => ({ code := code }, none, conn, heap)
      | .ok 0 => ({ body := .inBuffer bodyOffset }, none, conn, heap)
      | .ok (n + 1) =>
          if n + 1 > maxBodySize then ({ code := -1 }, none, conn, heap)
          else if initialBodyLen ≥ n + 1 then
            ({ body := .inBuffer bodyOffset, bodyLen := n + 1 }, none, conn, heap)
          else
            let initial := (buffer.drop bodyOffset).take initialBodyLen
            match malloc answers heap ((n + 1 + 1) % SIZE_T) (.text initial) with
            | (none, heap) => ({ code := -1 }, none, conn, heap)
            | (some fullBody, heap) =>
                let deadlineMs := conn.nowMs + timeoutMs
                match recvBody conn.tick deadlineMs (n + 1) initial with
                | (none, conn) => ({ code := -1 }, none, conn, heap.release fullBody)
                | (some block, conn) =>
                    ({ body := .heap bodyOffset block, bodyLen := n + 1, bodyHeap := true },
                      some fullBody, conn, heap.modify fullBody fun _ => .text block)

-- ============================================================================
-- The whole request
-- ============================================================================

/-- `parsed_request_t`: the fields that are no arrays in `request`, the block of
    a body on the heap, and the arrays. -/
structure ParsedMem where
  request : ParsedRequest := {}
  body : Option Nat := none
  query : PairArrays := {}
  headers : PairArrays := {}
  cookies : PairArrays := {}

/-- `names[i]` and `values[i]`. -/
def readPair (heap : Heap Block) (a : PairArrays) (i : Nat) : Option (Bytes × Bytes) :=
  match (nameCells heap a.names)[i]?, (nameCells heap a.values)[i]? with
  | some (.name p), some (.name q) =>
      match readText heap p, readText heap q with
      | some name, some value => some (name, value)
      | _, _ => none
  | _, _ => none

/-- One turn of the loop over the stored headers. -/
def applyHeaderMem (answers : Nat → Answer) (out : ParsedMem) (heap : Heap Block)
    (field : Bytes × Bytes) : ParsedMem × Heap Block :=
  let (out, heap) :=
    if strcaseeq field.1 (ascii "Cookie") then
      let heap := if out.cookies.names = none then heap else freeArrays heap out.cookies
      let (cookies, heap) := parseCookiesMem answers field.2 heap
      ({ out with cookies := cookies }, heap)
    else (out, heap)
  if strcaseeq field.1 (ascii "Connection") && strcaseeq field.2 (ascii "keep-alive") then
    ({ out with request := { out.request with keepAlive := true } }, heap)
  else (out, heap)

/-- The loop, for `n` headers from `i` on. -/
def applyHeadersMem (answers : Nat → Answer) (i : Nat) :
    Nat → ParsedMem → Heap Block → ParsedMem × Heap Block
  | 0, out, heap => (out, heap)
  | n + 1, out, heap =>
      match readPair heap out.headers i with
      | some field =>
          match applyHeaderMem answers out heap field with
          | (out, heap) => applyHeadersMem answers (i + 1) n out heap
      | none => applyHeadersMem answers (i + 1) n out heap

/-- `hdr_copy`, which `parse_headers` is given, and what it makes of it. -/
def parseHeaderBlockMem (answers : Nat → Answer) (head : Bytes) (heap : Heap Block) :
    Option PairArrays × Heap Block :=
  match malloc answers heap (head.length + 1) (.text head) with
  | (none, heap) => (none, heap)
  | (some hdrCopy, heap) =>
      match parseHeadersMem answers head heap with
      | (headers, heap) => (headers, heap.release hdrCopy)

/-- The split of the target. -/
def splitTargetMem (answers : Nat → Answer) (out : ParsedMem) (heap : Heap Block) :
    ParsedMem × Heap Block :=
  match splitAtByte 63 out.request.path with
  | (pathOnly, some qs) =>
      match parseQueryStringMem answers qs heap with
      | (query, heap) =>
          ({ out with
              request := { out.request with pathOnly := pathOnly, queryString := some qs }
              query := query.getD {} }, heap)
  | (pathOnly, none) => ({ out with request := { out.request with pathOnly := pathOnly } }, heap)

/-- `parse_request`. -/
def parseRequestMem (answers : Nat → Answer) (heap : Heap Block) (conn : Conn) (buffer : Bytes)
    (received maxBodySize : Nat) (timeoutMs : Int) : ParseCode × ParsedMem × Conn × Heap Block :=
  match parseRawRequest buffer with
  | (false, method, path) => (.badRequest, { request := { method, path } }, conn, heap)
  | (true, method, path) =>
      match mnetParseMethod method with
      | none => (.unsupportedMethod, { request := { method, path } }, conn, heap)
      | some m =>
          let request : ParsedRequest := { method, path, methodEnum := some m }
          match readFullBodyMem answers heap conn buffer received maxBodySize timeoutMs with
          | (r, body, conn, heap) =>
              if r.code = -1 then (.tooLarge, { request }, conn, heap)
              else if r.code = -2 then (.badContentLength, { request }, conn, heap)
              else if r.code = -3 then (.duplicateContentLength, { request }, conn, heap)
              else if r.code = -4 then (.unsupportedTransferEncoding, { request }, conn, heap)
              else
                let request := { request with
                  body := r.body, bodyLength := r.bodyLen, bodyHeap := r.bodyHeap }
                let out : ParsedMem := { request, body }
                match endOfHeaders buffer with
                | none =>
                    let (out, heap) := splitTargetMem answers out heap
                    (.ok, out, conn, heap)
                | some (headEnd, _) =>
                    match parseHeaderBlockMem answers (buffer.take headEnd) heap with
                    | (none, heap) => (.headersTooLarge, out, conn, heap)
                    | (some headers, heap) =>
                        let out := { out with headers := headers }
                        let (out, heap) := applyHeadersMem answers 0 headers.count out heap
                        let (out, heap) := splitTargetMem answers out heap
                        (.ok, out, conn, heap)

/-- `free_extras`. -/
def freeExtras (heap : Heap Block) (out : ParsedMem) : Heap Block :=
  freeArrays (freeArrays (freeArrays heap out.query) out.headers) out.cookies

/-- What `mnet_handle_client` releases behind a request, whatever has become of
    it: the extras, and the body where it is on the heap. -/
def freeParsed (heap : Heap Block) (out : ParsedMem) : Heap Block :=
  let heap := freeExtras heap out
  if out.request.bodyHeap then heap.free out.body else heap

/-- The fields two arrays hold. -/
def readPairsFrom (heap : Heap Block) (a : PairArrays) (i : Nat) :
    Nat → Option (List (Bytes × Bytes))
  | 0 => some []
  | n + 1 =>
      match readPair heap a i, readPairsFrom heap a (i + 1) n with
      | some field, some fields => some (field :: fields)
      | _, _ => none

def readArrays (heap : Heap Block) (a : PairArrays) : Option (List (Bytes × Bytes)) :=
  readPairsFrom heap a 0 a.count

/-- The request as a handler finds it, where all of it can be read. -/
def readParsed (heap : Heap Block) (out : ParsedMem) : Option ParsedRequest :=
  match readArrays heap out.query, readArrays heap out.headers, readArrays heap out.cookies with
  | some query, some headers, some cookies =>
      some { out.request with extras := { query, headers, cookies } }
  | _, _, _ => none

-- ============================================================================
-- What the arrays hold
-- ============================================================================

/-- An array of `capacity` pointers that begins with these. -/
def Column (heap : Heap Block) (q capacity : Nat) (cells : List NameCell) : Prop :=
  ∃ all, heap.blocks q = some (.names all) ∧ all.length = capacity ∧ cells <+: all

/-- The strings of the entries, entry by entry. -/
def stringBlocks : List (Nat × Nat) → List Nat
  | [] => []
  | (p, q) :: strings => p :: q :: stringBlocks strings

/-- The strings are those of `pairs`. -/
def Texts (heap : Heap Block) : List (Nat × Nat) → List (Bytes × Bytes) → Prop :=
  List.Forall₂ fun e f => heap.blocks e.1 = some (.text f.1) ∧ heap.blocks e.2 = some (.text f.2)

/-- Two arrays of `capacity` whose first entries are `pairs`, in `strings`. -/
structure Holds (heap : Heap Block) (names values capacity : Nat) (strings : List (Nat × Nat))
    (pairs : List (Bytes × Bytes)) : Prop where
  names : Column heap names capacity (strings.map fun e => .name e.1)
  values : Column heap values capacity (strings.map fun e => .name e.2)
  texts : Texts heap strings pairs

/-- What the arrays of one kind of field hold, and the blocks they are made
    of. -/
inductive PairsAt (heap : Heap Block) : PairArrays → List (Bytes × Bytes) → List Nat → Prop
  | null : PairsAt heap {} [] []
  | arrays {names values capacity : Nat} {strings : List (Nat × Nat)}
      {pairs : List (Bytes × Bytes)} (h : Holds heap names values capacity strings pairs) :
      PairsAt heap ⟨some names, some values, strings.length⟩ pairs
        (stringBlocks strings ++ [names, values])

section Arrays

variable {heap heap' : Heap Block} {names values capacity : Nat} {strings : List (Nat × Nat)}
  {pairs : List (Bytes × Bytes)} {a : PairArrays} {own : List Nat} {q : Nat}
  {cells : List NameCell} {c : NameCell}

@[simp] theorem stringBlocks_append (s t : List (Nat × Nat)) :
    stringBlocks (s ++ t) = stringBlocks s ++ stringBlocks t := by
  induction s with
  | nil => rfl
  | cons e s ih => simp [stringBlocks, ih]

theorem Column.congr (h : Column heap q capacity cells)
    (hagree : heap'.blocks q = heap.blocks q) : Column heap' q capacity cells := by
  rw [Column, hagree]
  exact h

theorem Column.of_append {more : List NameCell} (h : Column heap q capacity (cells ++ more)) :
    Column heap q capacity cells := by
  obtain ⟨all, hq, hlen, hpre⟩ := h
  exact ⟨all, hq, hlen, (List.prefix_append cells more).trans hpre⟩

theorem Column.getElem? (h : Column heap q capacity cells) {i : Nat}
    (hc : cells[i]? = some c) : (nameCells heap (some q))[i]? = some c := by
  obtain ⟨all, hq, -, more, rfl⟩ := h
  rw [nameCells, hq]
  show (cells ++ more)[i]? = some c
  rw [List.getElem?_append_left (List.getElem?_eq_some_iff.mp hc).1, hc]

/-- The entry behind the last one is written. -/
theorem Column.set (h : Column heap q capacity cells) (hlt : cells.length < capacity)
    (c : NameCell) :
    Column (heap.modify q (setCell cells.length c)) q capacity (cells ++ [c]) := by
  obtain ⟨all, hq, hlen, more, rfl⟩ := h
  cases more with
  | nil =>
      rw [List.append_nil] at hlen
      omega
  | cons d more =>
      refine ⟨cells ++ c :: more, ?_, ?_, more, by simp⟩
      · rw [Heap.modify_self, hq]
        simp [setCell]
      · simpa using hlen

theorem Texts.imp (h : Texts heap strings pairs)
    (hkeep : ∀ p ∈ stringBlocks strings, ∀ s, heap.blocks p = some (.text s) →
      heap'.blocks p = some (.text s)) : Texts heap' strings pairs := by
  induction h with
  | nil => exact .nil
  | cons he _ ih =>
      refine .cons ⟨?_, ?_⟩ (ih fun p hp => hkeep p (by simp [stringBlocks, hp]))
      · exact hkeep _ (by simp [stringBlocks]) _ he.1
      · exact hkeep _ (by simp [stringBlocks]) _ he.2

/-- What is read of the arrays stays while the blocks they are made of do. -/
theorem Holds.congr (h : Holds heap names values capacity strings pairs)
    (hagree : ∀ p ∈ stringBlocks strings ++ [names, values], heap'.blocks p = heap.blocks p) :
    Holds heap' names values capacity strings pairs where
  names := h.names.congr (hagree names (by simp))
  values := h.values.congr (hagree values (by simp))
  texts := h.texts.imp fun p hp _ hs => (hagree p (List.mem_append_left _ hp)).trans hs

theorem PairsAt.congr (h : PairsAt heap a pairs own)
    (hagree : ∀ p ∈ own, heap'.blocks p = heap.blocks p) : PairsAt heap' a pairs own := by
  cases h with
  | null => exact .null
  | arrays h => exact .arrays (h.congr hagree)

theorem freeCell_cellOf (heap : Heap Block) (n : Option Nat) :
    freeCell heap (some (cellOf n)) = heap.free n := by
  cases n <;> rfl

/-- One entry is released, with neither array among its strings. -/
theorem freePairAt_eq {cells' : List NameCell} {n v : Option Nat} {i : Nat}
    (hnames : Column heap names capacity cells) (hvalues : Column heap values capacity cells')
    (hn : cells[i]? = some (cellOf n)) (hv : cells'[i]? = some (cellOf v))
    (hne : n ≠ some values) :
    freePairAt heap names values i = (heap.free n).free v := by
  have hvalues' : Column (heap.free n) values capacity cells' := by
    apply hvalues.congr
    cases n with
    | none => rfl
    | some p => exact Heap.release_of_ne _ fun heq => hne (congrArg some heq.symm)
  rw [freePairAt, hnames.getElem? hn, freeCell_cellOf, hvalues'.getElem? hv, freeCell_cellOf]

/-- Releasing entries finds the two arrays as they are: they are other blocks. -/
theorem freePairs_eq (done rest : List (Nat × Nat))
    (hnames : Column heap names capacity ((done ++ rest).map fun e => .name e.1))
    (hvalues : Column heap values capacity ((done ++ rest).map fun e => .name e.2))
    (hout : ∀ p ∈ stringBlocks rest, p ≠ names ∧ p ≠ values) :
    freePairs heap names values done.length rest.length =
      heap.releaseAll (stringBlocks rest) := by
  induction rest generalizing heap done with
  | nil => rfl
  | cons e rest ih =>
      obtain ⟨p, q⟩ := e
      have hp := hout p (by simp [stringBlocks])
      have hq := hout q (by simp [stringBlocks])
      have hpair : freePairAt heap names values done.length = (heap.release p).release q :=
        freePairAt_eq (n := some p) (v := some q) hnames hvalues (by simp [cellOf])
          (by simp [cellOf]) fun heq => hp.2 (Option.some.inj heq)
      have happend : done ++ (p, q) :: rest = (done ++ [(p, q)]) ++ rest := by simp
      rw [happend] at hnames hvalues
      have hnames' : Column ((heap.release p).release q) names capacity
          ((done ++ [(p, q)] ++ rest).map fun e => .name e.1) := by
        apply hnames.congr
        rw [Heap.release_of_ne _ hq.1.symm, Heap.release_of_ne _ hp.1.symm]
      have hvalues' : Column ((heap.release p).release q) values capacity
          ((done ++ [(p, q)] ++ rest).map fun e => .name e.2) := by
        apply hvalues.congr
        rw [Heap.release_of_ne _ hq.2.symm, Heap.release_of_ne _ hp.2.symm]
      have hrest := ih (done ++ [(p, q)]) hnames' hvalues'
        fun r hr => hout r (by simp [stringBlocks, hr])
      rw [List.length_append, List.length_singleton] at hrest
      rw [List.length_cons, freePairs, hpair]
      exact hrest

theorem Holds.freePairs (h : Holds heap names values capacity strings pairs)
    (hnodup : (stringBlocks strings ++ names :: values :: own).Nodup) :
    freePairs heap names values 0 strings.length = heap.releaseAll (stringBlocks strings) := by
  refine freePairs_eq [] strings h.names h.values fun p hp => ?_
  have hdisjoint := (List.nodup_append.mp hnodup).2.2 p hp
  exact ⟨hdisjoint names (by simp), hdisjoint values (by simp)⟩

/-- The arrays are released with all they are made of. -/
theorem PairsAt.freeArrays_eq (h : PairsAt heap a pairs own) (hnodup : own.Nodup) :
    freeArrays heap a = heap.releaseAll own := by
  cases h with
  | null => rfl
  | arrays h =>
      rw [freeArrays, Heap.releaseAll_append, ← h.freePairs hnodup]
      rfl

end Arrays

-- ============================================================================
-- One entry more
-- ============================================================================

section Store

variable {answers : Nat → Answer} {h heap : Heap Block} {names values capacity : Nat}
  {strings : List (Nat × Nat)} {pairs : List (Bytes × Bytes)} {own : List Nat}

/-- The state of a loop: the arrays with their entries, and what else is owned. -/
structure Filling (h heap : Heap Block) (names values capacity : Nat)
    (strings : List (Nat × Nat)) (pairs : List (Bytes × Bytes)) (own : List Nat) : Prop where
  owns : Owns h heap (stringBlocks strings ++ names :: values :: own)
  holds : Holds heap names values capacity strings pairs

theorem Filling.nodup (hf : Filling h heap names values capacity strings pairs own) :
    (stringBlocks strings ++ names :: values :: own).Nodup := hf.owns.nodup

/-- The first entries do not change with what is allocated, nor with another
    entry. -/
theorem Filling.arrays_ne (hf : Filling h heap names values capacity strings pairs own) :
    names ≠ values ∧ ∀ p ∈ stringBlocks strings, p ≠ names ∧ p ≠ values := by
  obtain ⟨-, hnodup, hdisjoint⟩ := List.nodup_append.mp hf.nodup
  refine ⟨?_, fun p hp => ⟨hdisjoint p hp names (by simp), hdisjoint p hp values (by simp)⟩⟩
  rintro rfl
  simp at hnodup

/-- Both copies written to the arrays, NULL among them where there was no
    memory. -/
structure Written (h heap : Heap Block) (names values capacity : Nat)
    (strings : List (Nat × Nat)) (pairs : List (Bytes × Bytes)) (own : List Nat)
    (n v : Option Nat) (name value : Bytes) : Prop where
  owns : Owns h heap (v.toList ++ (n.toList ++ (stringBlocks strings ++ names :: values :: own)))
  names : Column heap names capacity ((strings.map fun e => .name e.1) ++ [cellOf n])
  values : Column heap values capacity ((strings.map fun e => .name e.2) ++ [cellOf v])
  texts : Texts heap strings pairs
  name : ∀ p, n = some p → heap.blocks p = some (.text name)
  value : ∀ p, v = some p → heap.blocks p = some (.text value)

theorem storePair_written (answers : Nat → Answer)
    (hf : Filling h heap names values capacity strings pairs own)
    (hlt : strings.length < capacity) (name value : Bytes) :
    ∃ n v heap', Written h heap' names values capacity strings pairs own n v name value ∧
      storePair answers heap names values strings.length name value =
        (if n = none ∨ v = none then (false, freePairAt heap' names values strings.length)
        else (true, heap')) ∧
      ∀ limit, name.length < limit → value.length < limit → n = none ∨ v = none →
        Short answers h heap' limit := by
  obtain ⟨hne, hstrings⟩ := hf.arrays_ne
  obtain ⟨n, h₁, hn, ho₁, hname, hkeep₁⟩ := hf.owns.malloc answers (name.length + 1) (.text name)
  have ho₂ := ho₁.modify (p := names) (by simp) (setCell strings.length (cellOf n))
  obtain ⟨v, h₃, hv, ho₃, hvalue, hkeep₃⟩ :=
    ho₂.malloc answers (value.length + 1) (.text value)
  have ho₄ := ho₃.modify (p := values) (by simp) (setCell strings.length (cellOf v))
  -- a string is none of the arrays, so that it is as `strdup` has left it
  have hkeep : ∀ p s, p ≠ names → p ≠ values → h₁.blocks p = some (.text s) →
      (h₃.modify values (setCell strings.length (cellOf v))).blocks p = some (.text s) := by
    intro p s hpn hpv hp
    rw [Heap.modify_of_ne _ _ hpv]
    apply hkeep₃
    rw [Heap.modify_of_ne _ _ hpn]
    exact hp
  have hcolumn : Column h₁ names capacity (strings.map fun e => .name e.1) := by
    obtain ⟨all, hall, hrest⟩ := hf.holds.names
    exact ⟨all, hkeep₁ _ _ hall, hrest⟩
  have hcolumn' : Column h₃ values capacity (strings.map fun e => .name e.2) := by
    obtain ⟨all, hall, hrest⟩ := hf.holds.values
    refine ⟨all, hkeep₃ _ _ ?_, hrest⟩
    rw [Heap.modify_of_ne _ _ hne.symm]
    exact hkeep₁ _ _ hall
  have hset := hcolumn.set (by simpa using hlt) (cellOf n)
  have hset' := hcolumn'.set (by simpa using hlt) (cellOf v)
  rw [List.length_map] at hset hset'
  refine ⟨n, v, _, ⟨ho₄, ?_, hset', ?_, ?_, ?_⟩, ?_, ?_⟩
  · obtain ⟨all, hall, hrest⟩ := hset
    refine ⟨all, ?_, hrest⟩
    rw [Heap.modify_of_ne _ _ hne]
    exact hkeep₃ _ _ hall
  · refine hf.holds.texts.imp fun p hp s hs => ?_
    exact hkeep p s (hstrings p hp).1 (hstrings p hp).2 (hkeep₁ _ _ hs)
  · rintro p rfl
    have hout := (List.nodup_cons.mp ho₁.nodup).1
    refine hkeep p name ?_ ?_ (hname p rfl)
    · rintro rfl
      exact hout (by simp)
    · rintro rfl
      exact hout (by simp)
  · rintro p rfl
    have hout := (List.nodup_cons.mp ho₃.nodup).1
    have hpv : p ≠ values := by
      rintro rfl
      exact hout (by simp)
    rw [Heap.modify_of_ne _ _ hpv]
    exact hvalue p rfl
  · simp only [storePair, strdup, hn, hv]
  · have hasked := Heap.asked_le_malloc answers
      (h₁.modify names (setCell strings.length (cellOf n))) (value.length + 1) (.text value)
    rw [hv] at hasked
    rintro limit hlt hlt' (rfl | rfl)
    · exact ((Heap.short_of_malloc hn).mono hlt).within hf.owns.asked_le hasked
    · exact (ho₂.earlier (Heap.short_of_malloc hv)).mono hlt'

/-- An entry one of whose copies is missing goes as it came. -/
theorem Written.failed {n v : Option Nat} {name value : Bytes}
    (hw : Written h heap names values capacity strings pairs own n v name value) :
    Filling h (freePairAt heap names values strings.length) names values capacity strings pairs
      own := by
  have hne : n ≠ some values := by
    rintro rfl
    have hnodup := (List.nodup_append.mp hw.owns.nodup).2.1
    exact (List.nodup_cons.mp hnodup).1 (by simp)
  have hfree := freePairAt_eq (n := n) (v := v) (i := strings.length) hw.names hw.values
    (by simp) (by simp) hne
  have ho :
      Owns h heap (n.toList ++ (v.toList ++ (stringBlocks strings ++ names :: values :: own))) :=
    hw.owns.perm (List.perm_append_comm_assoc ..)
  rw [hfree]
  refine ⟨ho.free.free, ?_⟩
  have hholds : Holds heap names values capacity strings pairs :=
    ⟨hw.names.of_append, hw.values.of_append, hw.texts⟩
  apply hholds.congr
  intro p hp
  have hmem : p ∈ stringBlocks strings ++ names :: values :: own := by
    simp only [List.mem_append, List.mem_cons, List.not_mem_nil, or_false] at hp ⊢
    tauto
  rw [ho.free.free_blocks hmem, ho.free_blocks (List.mem_append_right _ hmem)]

/-- With both copies there the entry counts. -/
theorem Written.stored {p q : Nat} {name value : Bytes}
    (hw : Written h heap names values capacity strings pairs own (some p) (some q) name value) :
    Filling h heap names values capacity (strings ++ [(p, q)]) (pairs ++ [(name, value)]) own := by
  constructor
  · refine hw.owns.perm ?_
    simp only [Option.toList_some, stringBlocks_append, stringBlocks, List.append_assoc]
    show (q :: p :: (stringBlocks strings ++ names :: values :: own)).Perm
      (stringBlocks strings ++ p :: q :: names :: values :: own)
    refine (List.Perm.swap p q _).trans ?_
    exact (List.perm_middle.trans (List.perm_middle.cons p)).symm
  · constructor
    · simpa [cellOf] using hw.names
    · simpa [cellOf] using hw.values
    · exact List.rel_append hw.texts (.cons ⟨hw.name p rfl, hw.value q rfl⟩ .nil)

theorem Written.rewritten {p q : Nat} {name value : Bytes}
    (hw : Written h heap names values capacity strings pairs own (some p) (some q) name value)
    (finish : Bytes → Bytes) :
    Filling h (rewritePairAt finish heap names values strings.length) names values capacity
      (strings ++ [(p, q)]) (pairs ++ [(finish name, finish value)]) own := by
  obtain ⟨hne, hstrings⟩ := hw.stored.arrays_ne
  have hp := hstrings p (by simp [stringBlocks])
  have hq := hstrings q (by simp [stringBlocks])
  obtain ⟨hqout, hnodup⟩ := List.nodup_cons.mp hw.owns.nodup
  have hpout := (List.nodup_cons.mp hnodup).1
  have hqp : q ≠ p := by
    rintro rfl
    exact hqout (by simp)
  have hvalues : Column (heap.modify p (mapText finish)) values capacity
      ((strings.map fun e => .name e.2) ++ [cellOf (some q)]) :=
    hw.values.congr (Heap.modify_of_ne _ _ hp.2.symm)
  have heq : rewritePairAt finish heap names values strings.length =
      (heap.modify p (mapText finish)).modify q (mapText finish) := by
    rw [rewritePairAt, hw.names.getElem? (c := .name p) (by simp [cellOf]), rewriteCell,
      hvalues.getElem? (c := .name q) (by simp [cellOf]), rewriteCell]
  have hkeep : ∀ r, r ≠ p → r ≠ q →
      ((heap.modify p (mapText finish)).modify q (mapText finish)).blocks r = heap.blocks r := by
    intro r hrp hrq
    rw [Heap.modify_of_ne _ _ hrq, Heap.modify_of_ne _ _ hrp]
  rw [heq]
  constructor
  · refine (hw.stored.owns.modify ?_ _).modify ?_ _ <;> simp [stringBlocks]
  · constructor
    · simpa [cellOf] using hw.names.congr (hkeep names hp.1.symm hq.1.symm)
    · simpa [cellOf] using hw.values.congr (hkeep values hp.2.symm hq.2.symm)
    · refine List.rel_append (hw.texts.imp fun r hr s hs => ?_) (.cons ⟨?_, ?_⟩ .nil)
      · rw [hkeep r, hs]
        · rintro rfl
          exact hpout (by simp [hr])
        · rintro rfl
          exact hqout (by simp [hr])
      · rw [Heap.modify_of_ne _ _ hqp.symm, Heap.modify_self, hw.name p rfl]
        rfl
      · rw [Heap.modify_self, Heap.modify_of_ne _ _ hqp, hw.value q rfl]
        rfl

end Store

-- ============================================================================
-- A whole loop
-- ============================================================================

/-- What the loop stores where no request for memory fails. -/
def collectPairs (action : Nat → Bytes → PairAction) (finish : Bytes → Bytes) :
    List Bytes → List (Bytes × Bytes) → Option (List (Bytes × Bytes))
  | [], pairs => some pairs
  | token :: tokens, pairs =>
      match action pairs.length token with
      | .stop => some pairs
      | .skip => collectPairs action finish tokens pairs
      | .refuse => none
      | .store name value fits =>
          if fits then collectPairs action finish tokens (pairs ++ [(finish name, finish value)])
          else none

/-- Only what has room in the arrays is stored, and only parts of the token. -/
structure Bounded (action : Nat → Bytes → PairAction) (capacity : Nat) : Prop where
  room : ∀ idx token name value fits,
    action idx token = .store name value fits → idx < capacity
  part : ∀ idx token name value fits, action idx token = .store name value fits →
    name.length ≤ token.length ∧ value.length ≤ token.length

/-- The arrays hold what they should, or there are none and nothing is left. -/
inductive PairsOutcome (answers : Nat → Answer) (limit : Nat) (heap : Heap Block)
    (wanted : Option (List (Bytes × Bytes))) : Option PairArrays × Heap Block → Prop
  | failed {heap' : Heap Block} (ho : Owns heap heap' [])
      (hwhy : wanted = none ∨ Short answers heap heap' limit) :
      PairsOutcome answers limit heap wanted (none, heap')
  | stored {heap' : Heap Block} {a : PairArrays} {pairs : List (Bytes × Bytes)} {own : List Nat}
      (ho : Owns heap heap' own) (ha : PairsAt heap' a pairs own) (hw : wanted = some pairs) :
      PairsOutcome answers limit heap wanted (some a, heap')

section Loop

variable {answers : Nat → Answer} {action : Nat → Bytes → PairAction} {finish : Bytes → Bytes}
  {h heap : Heap Block} {names values capacity : Nat} {strings : List (Nat × Nat)}
  {pairs : List (Bytes × Bytes)} {own : List Nat}

theorem Filling.freePairs (hf : Filling h heap names values capacity strings pairs own) :
    Owns h (freePairs heap names values 0 strings.length) (names :: values :: own) := by
  rw [hf.holds.freePairs hf.nodup]
  exact hf.owns.releaseAll

theorem storePairs_cases (answers : Nat → Answer) (finish : Bytes → Bytes) {limit : Nat}
    (hbound : Bounded action capacity) (tokens : List Bytes)
    (hlimit : ∀ token ∈ tokens, token.length < limit)
    (hf : Filling h heap names values capacity strings pairs own) :
    (∃ heap', storePairs answers action finish names values tokens strings.length heap =
        (none, heap') ∧ Owns h heap' (names :: values :: own) ∧
        (collectPairs action finish tokens pairs = none ∨ Short answers h heap' limit)) ∨
      ∃ strings' pairs' heap', storePairs answers action finish names values tokens
          strings.length heap = (some strings'.length, heap') ∧
        Filling h heap' names values capacity strings' pairs' own ∧
        collectPairs action finish tokens pairs = some pairs' := by
  induction tokens generalizing heap strings pairs with
  | nil => exact .inr ⟨strings, pairs, heap, rfl, hf, rfl⟩
  | cons token tokens ih =>
      obtain ⟨htoken, hlimit⟩ := List.forall_mem_cons.mp hlimit
      have hlen : strings.length = pairs.length := hf.holds.texts.length_eq
      rw [storePairs, collectPairs, ← hlen]
      cases haction : action strings.length token with
      | stop => exact .inr ⟨strings, pairs, heap, rfl, hf, rfl⟩
      | skip => exact ih hlimit hf
      | refuse => exact .inl ⟨_, rfl, hf.freePairs, .inl rfl⟩
      | store name value fits =>
          obtain ⟨hname, hvalue⟩ := hbound.part _ _ _ _ _ haction
          obtain ⟨n, v, heap₁, hw, heq, hshort⟩ := storePair_written answers hf
            (hbound.room _ _ _ _ _ haction) name value
          by_cases hnull : n = none ∨ v = none
          · rw [if_pos hnull] at heq
            simp only [heq]
            refine .inl ⟨_, rfl, hw.failed.freePairs, .inr ?_⟩
            have hfailed := hshort limit (Nat.lt_of_le_of_lt hname htoken)
              (Nat.lt_of_le_of_lt hvalue htoken) hnull
            refine hfailed.within (Nat.le_refl _) ?_
            rw [asked_freePairs, asked_freePairAt]
          rw [if_neg hnull] at heq
          rw [not_or] at hnull
          obtain ⟨p, rfl⟩ := Option.ne_none_iff_exists'.mp hnull.1
          obtain ⟨q, rfl⟩ := Option.ne_none_iff_exists'.mp hnull.2
          simp only [heq]
          cases fits with
          | false => exact .inl ⟨_, rfl, hw.failed.freePairs, .inl rfl⟩
          | true =>
              have hnext := ih hlimit (hw.rewritten finish)
              rw [List.length_append, List.length_singleton] at hnext
              exact hnext

/-- An array from the system, with nothing written to it. -/
theorem mallocArray_cases (ho : Owns h heap own) (answers : Nat → Answer) (n : Nat) :
    ∃ q heap', mallocArray answers heap n = (q, heap') ∧ Owns h heap' (q.toList ++ own) ∧
      (∀ p b, heap.blocks p = some b → heap'.blocks p = some b) ∧
      (∀ p, q = some p → Column heap' p n []) ∧
      ∀ limit, n * POINTER_SIZE ≤ limit → q = none → Short answers h heap' limit := by
  obtain ⟨q, heap', heq, ho', hq, hkeep⟩ := ho.malloc answers (sizeMul n POINTER_SIZE)
    (.names (List.replicate n .unset))
  refine ⟨q, heap', heq, ho', hkeep, fun p hp => ?_, ?_⟩
  · exact ⟨_, hq p hp, List.length_replicate, List.nil_prefix⟩
  · rintro limit hle rfl
    exact (ho.earlier (Heap.short_of_malloc heq)).mono (Nat.le_trans (Nat.mod_le _ _) hle)

/-- The tokens are parts of the text. -/
theorem length_le_of_mem_strtok {text seps token : Bytes} (h : token ∈ strtok text seps) :
    token.length ≤ text.length := by
  rw [strtok, Tokens.tokens_eq_map_starts] at h
  obtain ⟨i, -, rfl⟩ := List.mem_map.mp h
  have hrun := (Tokens.runAt_isPrefix (seps.contains ·) (cstr text) i).length_le
  have htext := (cstr_isPrefix text).length_le
  rw [List.length_drop] at hrun
  omega

theorem readPairs_outcome (answers : Nat → Answer) (finish : Bytes → Bytes) {limit : Nat}
    (hbound : Bounded action capacity) (seps text : Bytes)
    (hcapacity : capacity * POINTER_SIZE ≤ limit) (htext : text.length < limit)
    (heap : Heap Block) :
    PairsOutcome answers limit heap (collectPairs action finish (strtok text seps) [])
      (readPairs answers action finish capacity seps text heap) := by
  obtain ⟨names, heap₁, hnames, ho₁, -, hcolumn, hshort⟩ :=
    mallocArray_cases (.refl heap) answers capacity
  obtain ⟨values, heap₂, hvalues, hsince, hkeep₂, hcolumn', hshort'⟩ :=
    mallocArray_cases (.refl heap₁) answers capacity
  have ho₂' : Owns heap heap₂ (names.toList ++ (values.toList ++ [])) := by
    have hboth := ho₁.trans hsince
    rw [List.append_nil] at hboth
    exact hboth.perm (List.perm_append_comm_assoc ..)
  simp only [readPairs, hnames, hvalues]
  by_cases hnull : names = none ∨ values = none
  · have hfree := ho₂'.free.free
    have hwhy : Short answers heap ((heap₂.free names).free values) limit := by
      have hfailed : Short answers heap heap₂ limit := hnull.elim
        (fun h => hsince.later (hshort limit hcapacity h))
        (fun h => ho₁.earlier (hshort' limit hcapacity h))
      refine hfailed.within (Nat.le_refl _) ?_
      rw [Heap.asked_free, Heap.asked_free]
    cases names with
    | none => exact .failed hfree (.inr hwhy)
    | some names =>
        cases values with
        | none => exact .failed hfree (.inr hwhy)
        | some values => simp at hnull
  rw [not_or] at hnull
  obtain ⟨names, rfl⟩ := Option.ne_none_iff_exists'.mp hnull.1
  obtain ⟨values, rfl⟩ := Option.ne_none_iff_exists'.mp hnull.2
  obtain ⟨copy, heap₃, hcopy, ho₃, -, hkeep₃⟩ := ho₂'.malloc answers (text.length + 1) (.text text)
  simp only [strdup, hcopy]
  cases copy with
  | none =>
      have hwhy := (ho₂'.earlier (Heap.short_of_malloc hcopy)).mono htext
      exact .failed ho₃.release.release (.inr hwhy)
  | some copy =>
      have hcolumn₃ : Column heap₃ names capacity [] := by
        obtain ⟨all, hall, hrest⟩ := hcolumn names rfl
        exact ⟨all, hkeep₃ _ _ (hkeep₂ _ _ hall), hrest⟩
      have hcolumn₃' : Column heap₃ values capacity [] := by
        obtain ⟨all, hall, hrest⟩ := hcolumn' values rfl
        exact ⟨all, hkeep₃ _ _ hall, hrest⟩
      have hfill : Filling heap heap₃ names values capacity [] [] [copy] :=
        ⟨ho₃.perm (List.perm_append_singleton copy [names, values]).symm, hcolumn₃, hcolumn₃', .nil⟩
      have htokens : ∀ token ∈ strtok text seps, token.length < limit :=
        fun token h => Nat.lt_of_le_of_lt (length_le_of_mem_strtok h) htext
      obtain ⟨heap', heq, ho, hwhy⟩ | ⟨strings, pairs, heap', heq, hf, hcollect⟩ :=
        storePairs_cases answers finish hbound _ htokens hfill
      · rw [List.length_nil] at heq
        simp only [heq]
        exact .failed ho.release.release.release hwhy
      · rw [List.length_nil] at heq
        simp only [heq]
        have ho : Owns heap heap' (copy :: (stringBlocks strings ++ [names, values])) := by
          refine hf.owns.perm ?_
          show (stringBlocks strings ++ ([names, values] ++ [copy])).Perm _
          rw [← List.append_assoc]
          exact List.perm_append_comm
        refine .stored ho.release ?_ hcollect
        refine .arrays (hf.holds.congr fun p hp => ?_)
        exact ho.free_blocks (q := some copy) hp

end Loop

-- ============================================================================
-- The three parsers
-- ============================================================================

section Parsers

variable {answers : Nat → Answer} {limit : Nat} {heap : Heap Block}

theorem length_splitAtByte (sep : Byte) (token : Bytes) :
    (splitAtByte sep token).1.length ≤ token.length ∧
      ((splitAtByte sep token).2.getD []).length ≤ token.length := by
  rw [splitAtByte]
  split
  · simp
  · simp

theorem length_dropWhile_le (p : Byte → Bool) (s : Bytes) : (s.dropWhile p).length ≤ s.length :=
  (List.dropWhile_suffix p).length_le

theorem length_cookiePair (token : Bytes) :
    (cookiePair token).1.length ≤ token.length ∧ (cookiePair token).2.length ≤ token.length := by
  have htoken := length_dropWhile_le (· == SP) token
  obtain ⟨hname, hvalue⟩ := length_splitAtByte 61 (token.dropWhile (· == SP))
  have hblank := length_dropWhile_le (· == SP)
    ((splitAtByte 61 (token.dropWhile (· == SP))).2.getD [])
  simp only [cookiePair]
  omega

theorem length_headerField {line name value : Bytes} (h : headerField line = some (name, value)) :
    name.length ≤ line.length ∧ value.length ≤ line.length := by
  rw [headerField] at h
  split at h
  · cases h
  · next colon _ =>
    dsimp only at h
    split at h
    · obtain ⟨rfl, rfl⟩ := Prod.mk.inj (Option.some.inj h)
      have hvalue := length_dropWhile_le isBlank (line.drop (colon + 1))
      rw [List.length_drop] at hvalue
      rw [List.length_take]
      omega
    · cases h

theorem queryAction_bounded (count : Nat) : Bounded (queryAction count) count := by
  constructor <;> intro idx token name value fits h
  · rw [queryAction] at h
    split at h
    · cases h
    · omega
  · rw [queryAction] at h
    split at h
    · cases h
    · obtain ⟨rfl, rfl, -⟩ := PairAction.store.inj h
      exact length_splitAtByte 61 token

theorem headerAction_bounded : Bounded headerAction MNET_MAX_HEADERS := by
  constructor <;> intro idx token name value fits h <;> unfold headerAction at h <;>
    split at h
  · cases h
  · omega
  · cases h
  · split at h
    · cases h
    · split at h
      · next name' value' hfield =>
        obtain ⟨rfl, rfl, -⟩ := PairAction.store.inj h
        exact length_headerField hfield
      · cases h

theorem cookieAction_bounded (count : Nat) : Bounded (cookieAction count) count := by
  constructor <;> intro idx token name value fits h <;> unfold cookieAction at h <;>
    split at h
  · cases h
  · omega
  · cases h
  · obtain ⟨rfl, rfl, -⟩ := PairAction.store.inj h
    exact length_cookiePair token

/-- The loops store what those of `Mnet.Parse` do. -/
theorem collectPairs_query (count : Nat) (tokens : List Bytes) (pairs : List (Bytes × Bytes)) :
    collectPairs (queryAction count) decodeText tokens pairs =
      queryPairs (tokens.take (count - pairs.length)) pairs := by
  induction tokens generalizing pairs with
  | nil =>
      rw [List.take_nil]
      rfl
  | cons token tokens ih =>
      rw [collectPairs, queryAction]
      by_cases hfull : pairs.length ≥ count
      · rw [if_pos hfull, Nat.sub_eq_zero_of_le hfull]
        rfl
      · obtain ⟨k, hk⟩ : ∃ k, count - pairs.length = k + 1 := ⟨count - pairs.length - 1, by omega⟩
        have hk' : ∀ f : Bytes × Bytes, count - (pairs ++ [f]).length = k := by
          intro f
          rw [List.length_append, List.length_singleton]
          omega
        rw [if_neg hfull, hk, List.take_succ_cons, queryPairs]
        obtain ⟨name, value⟩ := splitAtByte 61 token
        simp only [decide_eq_true_eq, Bool.or_eq_true]
        by_cases hfit : name.length ≤ MNET_MAX_QUERY_NAME ∧
            (value.getD []).length ≤ MNET_MAX_QUERY_VALUE
        · have hover : ¬(name.length > MNET_MAX_QUERY_NAME ∨
              (value.getD []).length > MNET_MAX_QUERY_VALUE) := by omega
          rw [if_pos hfit, if_neg hover, ih, hk']
          rfl
        · have hover : name.length > MNET_MAX_QUERY_NAME ∨
              (value.getD []).length > MNET_MAX_QUERY_VALUE := by omega
          rw [if_neg hfit, if_pos hover]

theorem collectPairs_headers (lines : List Bytes) (fields : List (Bytes × Bytes)) :
    collectPairs headerAction id lines fields = parseHeaderLines lines fields := by
  induction lines generalizing fields with
  | nil => rfl
  | cons line lines ih =>
      rw [collectPairs, parseHeaderLines, headerAction]
      by_cases hmany : fields.length ≥ MNET_MAX_HEADERS
      · rw [if_pos hmany, if_pos hmany]
      · rw [if_neg hmany, if_neg hmany]
        by_cases hlong : line.length ≥ MNET_MAX_HEADER_LINE
        · rw [if_pos hlong, if_pos hlong]
        · rw [if_neg hlong, if_neg hlong]
          cases headerField line with
          | none => exact ih fields
          | some field => exact ih (fields ++ [field])

theorem collectPairs_cookies (count : Nat) (tokens : List Bytes) (pairs : List (Bytes × Bytes)) :
    collectPairs (cookieAction count) id tokens pairs =
      some (pairs ++ (tokens.take (count - pairs.length)).map cookiePair) := by
  induction tokens generalizing pairs with
  | nil => simp [collectPairs]
  | cons token tokens ih =>
      rw [collectPairs, cookieAction]
      by_cases hfull : pairs.length ≥ count
      · rw [if_pos hfull, Nat.sub_eq_zero_of_le hfull]
        simp
      · obtain ⟨k, hk⟩ : ∃ k, count - pairs.length = k + 1 := ⟨count - pairs.length - 1, by omega⟩
        have hk' : count - (pairs ++ [cookiePair token]).length = k := by
          rw [List.length_append, List.length_singleton]
          omega
        have hnext := ih (pairs ++ [cookiePair token])
        rw [hk'] at hnext
        rw [if_neg hfull, hk]
        show collectPairs (cookieAction count) id tokens (pairs ++ [cookiePair token]) = _
        rw [hnext, List.take_succ_cons, List.map_cons, List.append_assoc, List.singleton_append]

theorem outcome_nil (answers : Nat → Answer) (limit : Nat) (heap : Heap Block) :
    PairsOutcome answers limit heap (some []) (some {}, heap) :=
  .stored (.refl heap) .null rfl

/-- No text of a request needs a larger block. -/
def Roomy (limit : Nat) (text : Bytes) : Prop := 8 * text.length + 1000 ≤ limit

theorem parseQueryStringMem_outcome (answers : Nat → Answer) (heap : Heap Block) {qs : Bytes}
    (hlimit : Roomy limit qs) :
    PairsOutcome answers limit heap (parseQueryString qs)
      (parseQueryStringMem answers qs heap) := by
  rw [parseQueryString, parseQueryStringMem]
  by_cases hqs : qs = []
  · rw [if_pos hqs, if_pos hqs]
    exact outcome_nil answers limit heap
  · rw [if_neg hqs, if_neg hqs]
    have hcount : ∀ n, (if n > MNET_MAX_QUERY then MNET_MAX_QUERY else n) ≤ MNET_MAX_QUERY := by
      intro n
      split <;> omega
    have hcount := hcount (1 + qs.count 38)
    unfold Roomy at hlimit
    rw [MNET_MAX_QUERY] at hcount ⊢
    have hsize : (if 1 + qs.count 38 > 16 then 16 else 1 + qs.count 38) * POINTER_SIZE ≤ limit := by
      rw [POINTER_SIZE]
      omega
    have h := readPairs_outcome answers decodeText
      (queryAction_bounded (if 1 + qs.count 38 > 16 then 16 else 1 + qs.count 38)) (ascii "&") qs
      hsize (by omega) heap
    rw [collectPairs_query] at h
    exact h

theorem parseHeadersMem_outcome (answers : Nat → Answer) (heap : Heap Block) {headersRaw : Bytes}
    (hlimit : Roomy limit headersRaw) :
    PairsOutcome answers limit heap (parseHeaders headersRaw)
      (parseHeadersMem answers headersRaw heap) := by
  rw [parseHeaders, parseHeadersMem]
  by_cases hraw : headersRaw = []
  · have hnone : strtok headersRaw CRLF = [] := by
      rw [hraw]
      exact Tokens.tokens_nil
    rw [if_pos hraw, hnone]
    exact outcome_nil answers limit heap
  · rw [if_neg hraw, ← collectPairs_headers]
    unfold Roomy at hlimit
    exact readPairs_outcome answers id headerAction_bounded CRLF headersRaw
      (by rw [POINTER_SIZE, MNET_MAX_HEADERS]; omega) (by omega) heap

/-- The copy of the block is gone whatever comes of it. -/
theorem parseHeaderBlockMem_outcome (answers : Nat → Answer) (heap : Heap Block) {head : Bytes}
    (hlimit : Roomy limit head) :
    PairsOutcome answers limit heap (parseHeaders head)
      (parseHeaderBlockMem answers head heap) := by
  obtain ⟨copy, heap₁, heq, ho, -, -⟩ :=
    (Owns.refl heap).malloc answers (head.length + 1) (.text head)
  simp only [parseHeaderBlockMem, heq]
  cases copy with
  | none =>
      refine .failed ho (.inr ((Heap.short_of_malloc heq).mono ?_))
      unfold Roomy at hlimit
      omega
  | some copy =>
      have houtcome := parseHeadersMem_outcome answers heap₁ hlimit
      dsimp only
      generalize parseHeadersMem answers head heap₁ = result at houtcome ⊢
      cases houtcome with
      | failed ho' hwhy => exact .failed (ho.trans ho').release (hwhy.imp_right ho.earlier)
      | stored ho' ha hw =>
          have hboth := (ho.trans ho').perm List.perm_append_comm
          exact .stored hboth.release
            (ha.congr fun p hp => hboth.free_blocks (q := some copy) hp) hw

/-- `parse_cookies` does not say whether it has failed: there are no cookies
    then. -/
theorem parseCookiesMem_outcome (answers : Nat → Answer) (heap : Heap Block) {cookieHeader : Bytes}
    (hlimit : Roomy limit cookieHeader) :
    ∃ a heap' pairs own, parseCookiesMem answers cookieHeader heap = (a, heap') ∧
      Owns heap heap' own ∧ PairsAt heap' a pairs own ∧
      (pairs = parseCookies cookieHeader ∨ pairs = [] ∧ Short answers heap heap' limit) := by
  rw [parseCookies, parseCookiesMem]
  by_cases hnil : cookieHeader = []
  · rw [if_pos hnil, if_pos hnil]
    exact ⟨_, _, _, _, rfl, .refl heap, .null, .inl rfl⟩
  · rw [if_neg hnil, if_neg hnil]
    have hcount := List.count_le_length (a := (59 : Byte)) (l := cookieHeader)
    unfold Roomy at hlimit
    have hsize : (1 + cookieHeader.count 59) * POINTER_SIZE ≤ limit := by
      rw [POINTER_SIZE]
      omega
    have h := readPairs_outcome answers id (cookieAction_bounded (1 + cookieHeader.count 59))
      (ascii ";") cookieHeader hsize (by omega) heap
    rw [collectPairs_cookies] at h
    dsimp only
    generalize readPairs answers (cookieAction (1 + cookieHeader.count 59)) id
      (1 + cookieHeader.count 59) (ascii ";") cookieHeader heap = result at h ⊢
    cases h with
    | failed ho hwhy =>
        obtain hwhy | hwhy := hwhy
        · cases hwhy
        · exact ⟨_, _, _, _, rfl, ho, .null, .inr ⟨rfl, hwhy⟩⟩
    | stored ho ha hw =>
        refine ⟨_, _, _, _, rfl, ho, ha, .inl ?_⟩
        rw [← Option.some.inj hw]
        simp

end Parsers

end Mnet
