/-
  Mnet.RequestLifetime

  The memory of a request from `parse_request` to the end of its turn.
  Whichever requests for memory are refused, what is left of the parse is what
  `freeParsed` releases (`Leaves`); and a request that parses is the one of
  `Mnet.Parse`, but that its query or its cookies may be missing.
-/

import Mnet.ParseSpec
import Mnet.RequestMemory

namespace Mnet

open Heap (Answer malloc Owns Balanced Short)

-- ============================================================================
-- Reading the arrays
-- ============================================================================

section Read

variable {heap : Heap Block} {a : PairArrays} {pairs : List (Bytes × Bytes)} {own rest : List Nat}
  {h : Heap Block}

theorem PairsAt.count_eq (ha : PairsAt heap a pairs own) : a.count = pairs.length := by
  cases ha with
  | null => rfl
  | arrays h => exact h.texts.length_eq

theorem Texts.getElem? {strings : List (Nat × Nat)} (ht : Texts heap strings pairs) {i : Nat}
    {field : Bytes × Bytes} (hf : pairs[i]? = some field) :
    ∃ e, strings[i]? = some e ∧ heap.blocks e.1 = some (.text field.1) ∧
      heap.blocks e.2 = some (.text field.2) := by
  induction ht generalizing i with
  | nil => simp at hf
  | cons he _ ih =>
      cases i with
      | zero =>
          obtain rfl : _ = field := by simpa using hf
          exact ⟨_, rfl, he⟩
      | succ i => exact ih (by simpa using hf)

theorem PairsAt.readPair_eq (ha : PairsAt heap a pairs own) (i : Nat) {field : Bytes × Bytes}
    (hf : pairs[i]? = some field) : readPair heap a i = some field := by
  cases ha with
  | null => simp at hf
  | arrays h =>
      obtain ⟨e, he, hname, hvalue⟩ := h.texts.getElem? hf
      have hcell := h.names.getElem? (i := i) (c := .name e.1) (by simp [he])
      have hcell' := h.values.getElem? (i := i) (c := .name e.2) (by simp [he])
      simp only [readPair, hcell, hcell', readText_eq_some.mpr hname, readText_eq_some.mpr hvalue]

theorem PairsAt.readPairsFrom_eq (ha : PairsAt heap a pairs own) (done rest : List (Bytes × Bytes))
    (hpairs : pairs = done ++ rest) :
    readPairsFrom heap a done.length rest.length = some rest := by
  induction rest generalizing done with
  | nil => rfl
  | cons field rest ih =>
      have hfield : readPair heap a done.length = some field :=
        ha.readPair_eq done.length (by simp [hpairs])
      have hrest := ih (done ++ [field]) (by simp [hpairs])
      rw [List.length_append, List.length_singleton] at hrest
      rw [List.length_cons, readPairsFrom, hfield, hrest]

theorem PairsAt.readArrays_eq (ha : PairsAt heap a pairs own) : readArrays heap a = some pairs := by
  rw [readArrays, ha.count_eq]
  exact ha.readPairsFrom_eq [] pairs rfl

/-- The arrays are released, and nothing else. -/
theorem PairsAt.freed (ha : PairsAt heap a pairs own) (ho : Owns h heap (own ++ rest)) :
    Owns h (freeArrays heap a) rest ∧
      ∀ p ∈ rest, (freeArrays heap a).blocks p = heap.blocks p := by
  obtain ⟨hnodup, -, hdisjoint⟩ := List.nodup_append.mp ho.nodup
  rw [ha.freeArrays_eq hnodup]
  refine ⟨ho.releaseAll, fun p hp => ?_⟩
  exact Heap.releaseAll_of_not_mem _ fun hmem => hdisjoint p hmem p hp rfl

/-- Nothing is to release where there are no arrays. -/
theorem PairsAt.freeArrays_of_names (ha : PairsAt heap a pairs own) :
    (if a.names = none then heap else freeArrays heap a) = freeArrays heap a := by
  cases ha with
  | null => rfl
  | arrays _ => rfl

end Read

-- ============================================================================
-- The loop over the headers
-- ============================================================================

section Headers

variable {answers : Nat → Answer} {limit : Nat} {h heap : Heap Block} {out : ParsedMem}
  {parsed : ParsedRequest} {own : List Nat}

/-- The state of the loop beside that of `Mnet.Parse`: the same, or the last
    Cookie header has left nothing. -/
structure Applied (answers : Nat → Answer) (limit : Nat) (h heap : Heap Block) (out : ParsedMem)
    (parsed : ParsedRequest) (own : List Nat) : Prop where
  owns : Owns h heap own
  cookies : ∃ pairs, PairsAt heap out.cookies pairs own ∧
    (pairs = parsed.extras.cookies ∨ pairs = [] ∧ Short answers h heap limit)
  request : out.request = { parsed with extras := {} }

/-- The loop leaves these alone. -/
def SameFields (out out' : ParsedMem) : Prop :=
  out'.headers = out.headers ∧ out'.query = out.query ∧ out'.body = out.body

theorem SameFields.trans {out out' out'' : ParsedMem} (h : SameFields out out')
    (h' : SameFields out' out'') : SameFields out out'' :=
  ⟨h'.1.trans h.1, h'.2.1.trans h.2.1, h'.2.2.trans h.2.2⟩

theorem Applied.step (ha : Applied answers limit h heap out parsed own) {field : Bytes × Bytes}
    (hlimit : Roomy limit field.2) :
    ∃ out' heap' own', applyHeaderMem answers out heap field = (out', heap') ∧
      Applied answers limit h heap' out' (applyHeader parsed field) own' ∧
      SameFields out out' := by
  obtain ⟨pairs, hpairs, hwanted⟩ := ha.cookies
  rw [applyHeaderMem, applyHeader]
  by_cases hcookie : strcaseeq field.1 (ascii "Cookie") = true
  · have hfree := hpairs.freeArrays_of_names
    have hfreed : Owns h (freeArrays heap out.cookies) [] := by
      have ho := ha.owns
      rw [← List.append_nil own] at ho
      exact (hpairs.freed ho).1
    obtain ⟨a, heap', pairs', own', heq, ho, hpairs', hwanted'⟩ :=
      parseCookiesMem_outcome answers (freeArrays heap out.cookies) hlimit
    have ho' := hfreed.trans ho
    rw [List.append_nil] at ho'
    have hcookies' := hwanted'.imp_right fun hs => And.intro hs.1 (hfreed.earlier hs.2)
    simp only [hcookie, if_true, hfree, heq]
    split
    · refine ⟨_, _, own', rfl, ⟨ho', ⟨pairs', hpairs', hcookies'⟩, ?_⟩, rfl, rfl, rfl⟩
      rw [ha.request]
    · refine ⟨_, _, own', rfl, ⟨ho', ⟨pairs', hpairs', hcookies'⟩, ?_⟩, rfl, rfl, rfl⟩
      rw [ha.request]
  · simp only [hcookie, if_false, Bool.false_eq_true]
    split
    · refine ⟨_, _, own, rfl, ⟨ha.owns, ⟨pairs, hpairs, hwanted⟩, ?_⟩, rfl, rfl, rfl⟩
      rw [ha.request]
    · exact ⟨_, _, own, rfl, ha, rfl, rfl, rfl⟩

/-- The stored headers are older than what the loop allocates, so that it finds
    each of them as it is. -/
theorem Applied.run {fields : List (Bytes × Bytes)} {own₀ : List Nat}
    (hheaders : PairsAt h out.headers fields own₀) (hold : ∀ p ∈ own₀, p < h.next)
    (hlimit : ∀ field ∈ fields, Roomy limit field.2) (done rest : List (Bytes × Bytes))
    (hfields : fields = done ++ rest) (ha : Applied answers limit h heap out parsed own) :
    ∃ out' heap' own', applyHeadersMem answers done.length rest.length out heap = (out', heap') ∧
      Applied answers limit h heap' out' (rest.foldl applyHeader parsed) own' ∧
      SameFields out out' := by
  induction rest generalizing done heap out parsed own with
  | nil => exact ⟨_, _, _, rfl, ha, rfl, rfl, rfl⟩
  | cons field rest ih =>
      have hheaders' := hheaders.congr fun p hp => ha.owns.frame p (hold p hp)
      have hread : readPair heap out.headers done.length = some field :=
        hheaders'.readPair_eq done.length (by simp [hfields])
      obtain ⟨out₁, heap₁, own₁, heq, ha₁, hsame⟩ := ha.step (hlimit field (by simp [hfields]))
      rw [← hsame.1] at hheaders
      obtain ⟨out', heap', own', heq', ha', hsame'⟩ :=
        ih hheaders (done ++ [field]) (by simp [hfields]) ha₁
      rw [List.length_append, List.length_singleton] at heq'
      refine ⟨out', heap', own', ?_, ha', hsame.trans hsame'⟩
      rw [List.length_cons, applyHeadersMem, hread]
      simp only [heq]
      exact heq'

end Headers

-- ============================================================================
-- What is left of a request
-- ============================================================================

/-- The blocks of a parsed request, and the fields its arrays hold. -/
structure Leaves (h heap : Heap Block) (out : ParsedMem) (extras : RequestExtras)
    (query headers cookies : List Nat) : Prop where
  owns : Owns h heap (query ++ (headers ++ (cookies ++ out.body.toList)))
  query : PairsAt heap out.query extras.query query
  headers : PairsAt heap out.headers extras.headers headers
  cookies : PairsAt heap out.cookies extras.cookies cookies
  bodyHeap : out.request.bodyHeap = out.body.isSome
  body : ∀ p, out.body = some p →
    ∃ offset block, out.request.body = .heap offset block ∧ heap.blocks p = some (.text block)

/-- The request is that of `Mnet.Parse`, but for a query or cookies there was no
    memory for. -/
structure Agrees (answers : Nat → Answer) (limit : Nat) (h heap : Heap Block) (out : ParsedMem)
    (extras : RequestExtras) (parsed : ParsedRequest) : Prop where
  request : out.request = { parsed with extras := {} }
  params : extras.paramNames = [] ∧ extras.paramValues = [] ∧ extras.paramCount = 0
  params_eq : parsed.extras.paramNames = [] ∧ parsed.extras.paramValues = [] ∧
    parsed.extras.paramCount = 0
  headers : extras.headers = parsed.extras.headers
  query : extras.query = parsed.extras.query ∨
    extras.query = [] ∧ Short answers h heap limit
  cookies : extras.cookies = parsed.extras.cookies ∨
    extras.cookies = [] ∧ Short answers h heap limit

section Parse

variable {answers : Nat → Answer} {limit : Nat} {h heap : Heap Block} {out : ParsedMem}
  {extras : RequestExtras} {parsed : ParsedRequest} {query headers cookies : List Nat}

/-- Everything is released. -/
theorem Leaves.freed (hl : Leaves h heap out extras query headers cookies) :
    Owns h (freeParsed heap out) [] := by
  obtain ⟨ho₁, hkeep₁⟩ := hl.query.freed hl.owns
  have hheaders := hl.headers.congr fun p hp => hkeep₁ p (by simp [hp])
  obtain ⟨ho₂, hkeep₂⟩ := hheaders.freed ho₁
  have hcookies := hl.cookies.congr fun p hp =>
    (hkeep₂ p (by simp [hp])).trans (hkeep₁ p (by simp [hp]))
  obtain ⟨ho₃, -⟩ := hcookies.freed ho₂
  rw [freeParsed, hl.bodyHeap]
  cases hbody : out.body with
  | none =>
      rw [hbody] at ho₃
      exact ho₃
  | some p =>
      rw [hbody] at ho₃
      exact ho₃.release

theorem Leaves.readParsed_eq (hl : Leaves h heap out extras query headers cookies)
    (ha : Agrees answers limit h heap out extras parsed) :
    readParsed heap out = some { parsed with extras := extras } := by
  have hextras : extras =
      { query := extras.query, headers := extras.headers, cookies := extras.cookies } := by
    obtain ⟨hnames, hvalues, hcount⟩ := ha.params
    obtain ⟨names, values, count, _, _, _⟩ := extras
    obtain rfl : names = [] := hnames
    obtain rfl : values = [] := hvalues
    obtain rfl : count = 0 := hcount
    rfl
  simp only [readParsed, hl.query.readArrays_eq, hl.headers.readArrays_eq,
    hl.cookies.readArrays_eq, ha.request, ← hextras]

theorem Agrees.extras_eq (ha : Agrees answers limit h heap out extras parsed) :
    extras = { parsed.extras with query := extras.query, cookies := extras.cookies } := by
  obtain ⟨hnames, hvalues, hcount⟩ := ha.params
  obtain ⟨hnames', hvalues', hcount'⟩ := ha.params_eq
  have hheaders := ha.headers
  obtain ⟨names, values, count, _, _, _⟩ := extras
  dsimp only at hnames hvalues hcount hheaders ⊢
  rw [hnames, hvalues, hcount, hheaders, hnames', hvalues', hcount']

theorem splitTargetMem_leaves (hl : Leaves h heap out extras [] headers cookies)
    (ha : Agrees answers limit h heap out extras parsed) (hlimit : Roomy limit parsed.path) :
    ∃ out' heap' extras' query, splitTargetMem answers out heap = (out', heap') ∧
      Leaves h heap' out' extras' query headers cookies ∧
      Agrees answers limit h heap' out' extras' (splitTarget parsed) := by
  have hpath : out.request.path = parsed.path := by rw [ha.request]
  have hpart := (length_splitAtByte 63 parsed.path).2
  rw [splitTargetMem, splitTarget, hpath]
  generalize splitAtByte 63 parsed.path = parts at hpart ⊢
  obtain ⟨pathOnly, qs⟩ := parts
  cases qs with
  | none =>
      refine ⟨_, _, extras, [], rfl, ⟨hl.owns, hl.query, hl.headers, hl.cookies, hl.bodyHeap,
        hl.body⟩, ⟨?_, ha.params, ha.params_eq, ha.headers, ha.query, ha.cookies⟩⟩
      rw [ha.request]
  | some qs =>
      have hqs : Roomy limit qs := by
        have hle : qs.length ≤ parsed.path.length := hpart
        unfold Roomy at hlimit ⊢
        omega
      have houtcome := parseQueryStringMem_outcome answers heap hqs
      dsimp only
      generalize parseQueryStringMem answers qs heap = result at houtcome ⊢
      obtain ⟨a, heap'⟩ := result
      obtain ⟨pairs, own, ho, hpairs, hwanted⟩ : ∃ pairs own, Owns heap heap' own ∧
          PairsAt heap' (a.getD {}) pairs own ∧
          (pairs = (parseQueryString qs).getD [] ∨
            pairs = [] ∧ Short answers heap heap' limit) := by
        cases houtcome with
        | failed ho hwhy =>
            refine ⟨[], [], ho, .null, hwhy.imp (fun hnone => ?_) fun hshort => ⟨rfl, hshort⟩⟩
            rw [hnone]
            rfl
        | stored ho hpairs hw =>
            refine ⟨_, _, ho, hpairs, .inl ?_⟩
            rw [hw]
            rfl
      have hold : ∀ p ∈ headers ++ (cookies ++ out.body.toList), heap'.blocks p = heap.blocks p :=
        fun p hp => ho.frame p (hl.owns.lt_next hp)
      refine ⟨_, _, { extras with query := pairs }, own, rfl, ?_, ?_⟩
      · constructor
        · exact hl.owns.trans ho
        · exact hpairs
        · exact hl.headers.congr fun p hp => hold p (by simp [hp])
        · exact hl.cookies.congr fun p hp => hold p (by simp [hp])
        · exact hl.bodyHeap
        · intro p hp
          obtain ⟨offset, block, hbody, hblock⟩ := hl.body p hp
          exact ⟨offset, block, hbody, (hold p (by simp [Option.mem_toList.mpr hp])).trans hblock⟩
      · refine ⟨?_, ha.params, ha.params_eq, ha.headers, ?_, ?_⟩
        · rw [ha.request]
        · exact hwanted.imp_right fun hs => ⟨hs.1, hl.owns.earlier hs.2⟩
        · exact ha.cookies.imp_right fun hs => ⟨hs.1, ho.later hs.2⟩

/-- From the stored headers to the end of `parse_request`. -/
theorem fields_leaves (hl : Leaves h heap out extras [] headers [])
    (ha : Agrees answers limit h heap out extras parsed) (hcookies : parsed.extras.cookies = [])
    (hpath : Roomy limit parsed.path)
    (hlimit : ∀ field ∈ extras.headers, Roomy limit field.2) :
    ∃ out' heap' extras' query cookies,
      splitTargetMem answers (applyHeadersMem answers 0 extras.headers.length out heap).1
        (applyHeadersMem answers 0 extras.headers.length out heap).2 = (out', heap') ∧
      Leaves h heap' out' extras' query headers cookies ∧
      Agrees answers limit h heap' out' extras'
        (splitTarget (extras.headers.foldl applyHeader parsed)) := by
  have hcookies' : extras.cookies = [] := ha.cookies.elim (·.trans hcookies) (·.1)
  have hnull := hl.cookies
  rw [hcookies'] at hnull
  have happlied : Applied answers limit heap heap out parsed [] :=
    ⟨.refl heap, ⟨[], hnull, .inl hcookies.symm⟩, ha.request⟩
  obtain ⟨out₁, heap₁, own, heq, happlied₁, hheaders, hquery, hbody⟩ :=
    Applied.run hl.headers (fun p hp => hl.owns.lt_next (by simp [hp])) hlimit [] extras.headers rfl
      happlied
  obtain ⟨pairs, hpairs, hwanted⟩ := happlied₁.cookies
  have hfold := foldl_applyHeader extras.headers parsed
  have hold : ∀ p ∈ headers ++ out.body.toList, heap₁.blocks p = heap.blocks p :=
    fun p hp => happlied₁.owns.frame p (hl.owns.lt_next hp)
  have hl₁ : Leaves h heap₁ out₁ { extras with cookies := pairs } [] headers own := by
    constructor
    · rw [hbody]
      exact (hl.owns.trans happlied₁.owns).perm (List.perm_append_comm_assoc own headers _)
    · rw [hquery]
      exact hl.query.congr nofun
    · rw [hheaders]
      exact hl.headers.congr fun p hp => hold p (by simp [hp])
    · exact hpairs
    · rw [hbody, happlied₁.request, hfold, ← hl.bodyHeap, ha.request]
    · intro p hp
      rw [hbody] at hp
      obtain ⟨offset, block, hptr, hblock⟩ := hl.body p hp
      rw [ha.request] at hptr
      refine ⟨offset, block, ?_, (hold p (by simp [Option.mem_toList.mpr hp])).trans hblock⟩
      rw [happlied₁.request, hfold]
      exact hptr
  have ha₁ : Agrees answers limit h heap₁ out₁ { extras with cookies := pairs }
      (extras.headers.foldl applyHeader parsed) := by
    have hwhy := hwanted.imp_right fun hs => And.intro hs.1 (hl.owns.earlier hs.2)
    refine ⟨happlied₁.request, ha.params, ?_, ?_, ?_, hwhy⟩ <;> rw [hfold]
    · exact ha.params_eq
    · exact ha.headers
    · exact ha.query.imp_right fun hs => ⟨hs.1, happlied₁.owns.later hs.2⟩
  have hpath' : Roomy limit (extras.headers.foldl applyHeader parsed).path := by
    rw [hfold]
    exact hpath
  obtain ⟨out', heap', extras', query, heq', hl', ha'⟩ := splitTargetMem_leaves hl₁ ha₁ hpath'
  rw [List.length_nil] at heq
  exact ⟨out', heap', extras', query, own, by rw [heq]; exact heq', hl', ha'⟩

theorem readFullBodyMem_cases (answers : Nat → Answer) (heap : Heap Block) (conn : Conn)
    (buffer : Bytes) (initialReceived : Nat) {maxBodySize : Nat} (timeoutMs : Int)
    (hlimit : maxBodySize + 1 ≤ limit) :
    ∃ r body conn' heap',
      readFullBodyMem answers heap conn buffer initialReceived maxBodySize timeoutMs =
        (r, body, conn', heap') ∧
      Owns heap heap' body.toList ∧ r.bodyHeap = body.isSome ∧ (r.code ≠ 0 → body = none) ∧
      (∀ p, body = some p → ∃ offset block, r.body = .heap offset block ∧
        heap'.blocks p = some (.text block)) ∧
      ((r, conn') = readFullBody conn buffer initialReceived maxBodySize timeoutMs ∨
        r.code = -1 ∧ Short answers heap heap' limit) := by
  have hsame := Owns.refl heap
  have hnobody : ∀ {Q : Nat → Prop} (p : Nat), none = some p → Q p :=
    fun _ hp => absurd hp (Option.some_ne_none _).symm
  rw [readFullBodyMem, readFullBody]
  cases endOfHeaders buffer with
  | none => exact ⟨_, _, _, _, rfl, hsame, rfl, fun _ => rfl, hnobody, .inl rfl⟩
  | some ends =>
  obtain ⟨headerEnd, sepLen⟩ := ends
  dsimp only
  cases contentLength buffer headerEnd maxBodySize with
  | error code => exact ⟨_, _, _, _, rfl, hsame, rfl, fun _ => rfl, hnobody, .inl rfl⟩
  | ok n =>
  cases n with
  | zero => exact ⟨_, _, _, _, rfl, hsame, rfl, fun _ => rfl, hnobody, .inl rfl⟩
  | succ n =>
  dsimp only
  by_cases hmax : n + 1 > maxBodySize
  · rw [if_pos hmax, if_pos hmax]
    exact ⟨_, _, _, _, rfl, hsame, rfl, fun _ => rfl, hnobody, .inl rfl⟩
  rw [if_neg hmax, if_neg hmax]
  by_cases hhave : initialReceived - (headerEnd + sepLen) ≥ n + 1
  · rw [if_pos hhave, if_pos hhave]
    exact ⟨_, _, _, _, rfl, hsame, rfl, fun _ => rfl, hnobody, .inl rfl⟩
  rw [if_neg hhave, if_neg hhave]
  generalize (buffer.drop (headerEnd + sepLen)).take (initialReceived - (headerEnd + sepLen)) =
    initial
  obtain ⟨body, heap₁, heq, ho, hcontent, -⟩ :=
    hsame.malloc answers ((n + 1 + 1) % SIZE_T) (.text initial)
  simp only [heq]
  cases body with
  | none =>
      refine ⟨_, _, _, _, rfl, ho, rfl, fun _ => rfl, hnobody,
        .inr ⟨rfl, (Heap.short_of_malloc heq).mono ?_⟩⟩
      have hle : (n + 1 + 1) % SIZE_T ≤ n + 1 + 1 := Nat.mod_le _ _
      omega
  | some p =>
      dsimp only
      generalize recvBody conn.tick (conn.nowMs + timeoutMs) (n + 1) initial = result
      obtain ⟨block, conn'⟩ := result
      cases block with
      | none => exact ⟨_, _, _, _, rfl, ho.release, rfl, fun _ => rfl, hnobody, .inl rfl⟩
      | some block =>
          refine ⟨_, _, _, _, rfl, ho.modify (by simp) _, rfl, fun hc => absurd rfl hc, ?_,
            .inl rfl⟩
          rintro _ ⟨⟩
          refine ⟨_, _, rfl, ?_⟩
          rw [Heap.modify_self, hcontent p rfl]
          rfl

/-- No value of a header is longer than the longest line. -/
theorem length_of_parseHeaderLines {lines : List Bytes} {fields fields' : List (Bytes × Bytes)}
    (h : parseHeaderLines lines fields = some fields')
    (hfields : ∀ field ∈ fields, field.2.length < MNET_MAX_HEADER_LINE) :
    ∀ field ∈ fields', field.2.length < MNET_MAX_HEADER_LINE := by
  induction lines generalizing fields with
  | nil =>
      obtain rfl := Option.some.inj h
      exact hfields
  | cons line lines ih =>
      rw [parseHeaderLines] at h
      split at h
      · cases h
      · split at h
        · cases h
        · next hline =>
          split at h
          · next field hfield =>
            refine ih h fun f hf => ?_
            obtain hf | hf := List.mem_append.mp hf
            · exact hfields f hf
            · obtain rfl := List.mem_singleton.mp hf
              have hlen := (length_headerField hfield).2
              omega
          · exact ih h hfields

theorem length_of_parseRawRequest {buffer method path : Bytes} {ok : Bool}
    (h : parseRawRequest buffer = (ok, method, path)) : path.length ≤ 2047 := by
  have hword : ∀ text word rest, scanWord 2047 text = some (word, rest) → word.length ≤ 2047 := by
    intro text word rest hscan
    rw [scanWord] at hscan
    split at hscan
    · cases hscan
    · obtain ⟨rfl, -⟩ := Prod.mk.inj (Option.some.inj hscan)
      exact List.length_take_le ..
  rw [parseRawRequest] at h
  repeat' split at h
  · cases h
    exact Nat.zero_le _
  · cases h
    exact Nat.zero_le _
  · cases h
    exact Nat.zero_le _
  · cases h
    exact Nat.zero_le _
  · next hscan =>
    cases h
    exact hword _ _ _ hscan

/-- Enough for each block of a request that comes in `buffer`. -/
structure Enough (limit : Nat) (buffer : Bytes) (maxBodySize : Nat) : Prop where
  head : 8 * buffer.length + 1000 ≤ limit
  line : 8 * MNET_MAX_HEADER_LINE + 1000 ≤ limit
  body : maxBodySize + 1 ≤ limit

/-- What `parse_request` leaves, beside what it leaves where there is memory for
    everything. -/
def Parsed (answers : Nat → Answer) (limit : Nat) (heap : Heap Block)
    (plain : ParseCode × ParsedRequest × Conn)
    (result : ParseCode × ParsedMem × Conn × Heap Block) : Prop :=
  ∃ extras query headers cookies,
    Leaves heap result.2.2.2 result.2.1 extras query headers cookies ∧
    (Agrees answers limit heap result.2.2.2 result.2.1 extras plain.2.1 ∧ result.1 = plain.1 ∧
        result.2.2.1 = plain.2.2 ∨
      (result.1 = .tooLarge ∨ result.1 = .headersTooLarge) ∧
        Short answers heap result.2.2.2 limit)

theorem Leaves.of_request {heap' : Heap Block} {request : ParsedRequest}
    (ho : Owns heap heap' []) (hbody : request.bodyHeap = false) :
    Leaves heap heap' { request } {} [] [] [] :=
  ⟨ho, .null, .null, .null, hbody, nofun⟩

theorem Agrees.of_request {request : ParsedRequest} {body : Option Nat}
    (hextras : request.extras = {}) :
    Agrees answers limit h heap { request, body } {} request := by
  refine ⟨?_, ⟨rfl, rfl, rfl⟩, ?_, ?_, ?_, ?_⟩
  · rw [← hextras]
  all_goals simp [hextras]

/-- A failure before the headers leaves nothing. -/
theorem Parsed.refused {heap' : Heap Block} {request : ParsedRequest} {code : ParseCode}
    {conn : Conn} (ho : Owns heap heap' []) (hbody : request.bodyHeap = false)
    (hextras : request.extras = {}) :
    Parsed answers limit heap (code, request, conn) (code, { request }, conn, heap') :=
  ⟨{}, [], [], [], .of_request ho hbody, .inl ⟨.of_request hextras, rfl, rfl⟩⟩

theorem parseRequestMem_parsed (answers : Nat → Answer) (heap : Heap Block) (conn : Conn)
    {buffer : Bytes} (received : Nat) {maxBodySize : Nat} (timeoutMs : Int)
    (henough : Enough limit buffer maxBodySize) :
    Parsed answers limit heap (parseRequest conn buffer received maxBodySize timeoutMs)
      (parseRequestMem answers heap conn buffer received maxBodySize timeoutMs) := by
  have hrefl := Owns.refl heap
  rw [parseRequestMem, parseRequest]
  cases hraw : parseRawRequest buffer with
  | mk ok rest =>
  obtain ⟨method, path⟩ := rest
  cases ok with
  | false => exact .refused hrefl rfl rfl
  | true =>
  dsimp only
  cases mnetParseMethod method with
  | none => exact .refused hrefl rfl rfl
  | some m =>
  dsimp only
  obtain ⟨r, body, conn', heap₁, heq, ho, hbodyHeap, hnone, hblock, hwhy⟩ :=
    readFullBodyMem_cases answers heap conn buffer received timeoutMs henough.body
  have hfailed : r.code ≠ 0 → Owns heap heap₁ [] := by
    intro hcode
    have ho' := ho
    rw [hnone hcode] at ho'
    exact ho'
  rw [heq]
  obtain hplain | ⟨hcode, hshort⟩ := hwhy
  · rw [← hplain]
    dsimp only
    by_cases h₁ : r.code = -1
    · rw [if_pos h₁, if_pos h₁]
      exact .refused (hfailed (by omega)) rfl rfl
    rw [if_neg h₁, if_neg h₁]
    by_cases h₂ : r.code = -2
    · rw [if_pos h₂, if_pos h₂]
      exact .refused (hfailed (by omega)) rfl rfl
    rw [if_neg h₂, if_neg h₂]
    by_cases h₃ : r.code = -3
    · rw [if_pos h₃, if_pos h₃]
      exact .refused (hfailed (by omega)) rfl rfl
    rw [if_neg h₃, if_neg h₃]
    by_cases h₄ : r.code = -4
    · rw [if_pos h₄, if_pos h₄]
      exact .refused (hfailed (by omega)) rfl rfl
    rw [if_neg h₄, if_neg h₄]
    obtain ⟨headEnd, sepLen, hend⟩ := endOfHeaders_of_parseRawRequest hraw
    have hhead : Roomy limit (buffer.take headEnd) := by
      have hlen := List.length_take_le' headEnd buffer
      have hlimit := henough.head
      unfold Roomy
      omega
    rw [hend]
    have houtcome := parseHeaderBlockMem_outcome answers heap₁ hhead
    have hheaderLines : ∀ fields, parseHeaders (buffer.take headEnd) = some fields →
        ∀ field ∈ fields, Roomy limit field.2 := by
      intro fields hfields field hfield
      have hlen := length_of_parseHeaderLines hfields (by simp) field hfield
      have hlimit := henough.line
      unfold Roomy
      omega
    dsimp only
    generalize parseHeaderBlockMem answers (buffer.take headEnd) heap₁ = result at houtcome ⊢
    let request : ParsedRequest :=
      { method, path, methodEnum := some m, body := r.body, bodyLength := r.bodyLen,
        bodyHeap := r.bodyHeap }
    cases houtcome with
    | @failed heap₂ ho' hwhy =>
        have hleaves : Leaves heap heap₂ { request, body } {} [] [] [] := by
          refine ⟨ho.trans ho', .null, .null, .null, hbodyHeap, fun p hp => ?_⟩
          obtain ⟨offset, block, hptr, hp'⟩ := hblock p hp
          have hlt := ho.lt_next (Option.mem_toList.mpr hp)
          exact ⟨offset, block, hptr, (ho'.frame p hlt).trans hp'⟩
        obtain hheaders | hshort := hwhy
        · rw [hheaders]
          exact ⟨{}, [], [], [], hleaves, .inl ⟨.of_request rfl, rfl, rfl⟩⟩
        · exact ⟨{}, [], [], [], hleaves, .inr ⟨.inr rfl, ho.earlier hshort⟩⟩
    | @stored heap₂ a fields own ho' ha hw =>
        rw [hw]
        have hleaves : Leaves heap heap₂ { request, body, headers := a } { headers := fields }
            [] own [] := by
          refine ⟨ho.trans ho', .null, ha, .null, hbodyHeap, fun p hp => ?_⟩
          obtain ⟨offset, block, hptr, hp'⟩ := hblock p hp
          have hlt := ho.lt_next (Option.mem_toList.mpr hp)
          exact ⟨offset, block, hptr, (ho'.frame p hlt).trans hp'⟩
        have hagrees : Agrees answers limit heap heap₂ { request, body, headers := a }
            { headers := fields } { request with extras := { headers := fields } } :=
          ⟨rfl, ⟨rfl, rfl, rfl⟩, ⟨rfl, rfl, rfl⟩, rfl, .inl rfl, .inl rfl⟩
        have hpath : Roomy limit path := by
          have hlen := length_of_parseRawRequest hraw
          have hlimit := henough.line
          rw [MNET_MAX_HEADER_LINE] at hlimit
          unfold Roomy
          omega
        obtain ⟨out', heap', extras', query, cookies, heq', hleaves', hagrees'⟩ :=
          fields_leaves hleaves hagrees rfl hpath (hheaderLines fields hw)
        dsimp only at heq' ⊢
        rw [ha.count_eq, heq']
        exact ⟨extras', query, own, cookies, hleaves', .inl ⟨hagrees', rfl, rfl⟩⟩
  · rw [if_pos hcode]
    exact ⟨{}, [], [], [], .of_request (hfailed (by omega)) rfl, .inr ⟨.inl rfl, hshort⟩⟩

end Parse

/-- Some limit is enough. -/
theorem exists_enough (buffer : Bytes) (maxBodySize : Nat) :
    ∃ limit, Enough limit buffer maxBodySize :=
  ⟨8 * buffer.length + 8 * MNET_MAX_HEADER_LINE + 1000 + maxBodySize + 1,
    by omega, by omega, by omega⟩

/-- Whatever comes of a request and whichever requests for memory are refused
    meanwhile: with its extras and its body freed, every block it was given has
    been released, exactly once, and no other block was touched. -/
theorem parseRequestMem_balanced (answers : Nat → Answer) (heap : Heap Block) (conn : Conn)
    (buffer : Bytes) (received maxBodySize : Nat) (timeoutMs : Int) :
    Balanced heap
      (freeParsed (parseRequestMem answers heap conn buffer received maxBodySize timeoutMs).2.2.2
        (parseRequestMem answers heap conn buffer received maxBodySize timeoutMs).2.1) := by
  obtain ⟨limit, henough⟩ := exists_enough buffer maxBodySize
  obtain ⟨extras, query, headers, cookies, hleaves, -⟩ :=
    parseRequestMem_parsed answers heap conn received timeoutMs henough
  exact hleaves.freed.balanced

/-- A parse that fails where the one of `Mnet.Parse` does not says that the body
    or the headers are too large; and a request that is accepted is the request,
    complete or without its query, or without its cookies. -/
theorem parseRequestMem_accepts (answers : Nat → Answer) (heap : Heap Block) (conn : Conn)
    (buffer : Bytes) (received maxBodySize : Nat) (timeoutMs : Int) :
    match parseRequestMem answers heap conn buffer received maxBodySize timeoutMs,
        parseRequest conn buffer received maxBodySize timeoutMs with
    | (code, out, conn₁, heap'), (plainCode, parsed, conn₂) =>
        (code = plainCode ∨ code = .tooLarge ∨ code = .headersTooLarge) ∧
        (code = .ok → plainCode = .ok ∧ conn₁ = conn₂ ∧
          ∃ query ∈ [parsed.extras.query, []], ∃ cookies ∈ [parsed.extras.cookies, []],
            readParsed heap' out =
              some { parsed with extras := { parsed.extras with query, cookies } }) := by
  obtain ⟨limit, henough⟩ := exists_enough buffer maxBodySize
  have hparsed := parseRequestMem_parsed answers heap conn received timeoutMs henough
  generalize parseRequestMem answers heap conn buffer received maxBodySize timeoutMs = result
    at hparsed ⊢
  generalize parseRequest conn buffer received maxBodySize timeoutMs = plain at hparsed ⊢
  obtain ⟨code, out, conn₁, heap'⟩ := result
  obtain ⟨plainCode, parsed, conn₂⟩ := plain
  obtain ⟨extras, query, headers, cookies, hleaves, hwhy⟩ := hparsed
  dsimp only at hleaves hwhy ⊢
  obtain ⟨hagrees, hcode, hconn⟩ | ⟨hcode, -⟩ := hwhy
  · refine ⟨.inl hcode, fun hok => ⟨hcode.symm.trans hok, hconn, ?_⟩⟩
    refine ⟨extras.query, ?_, extras.cookies, ?_, ?_⟩
    · rw [List.mem_cons, List.mem_singleton]
      exact hagrees.query.imp_right And.left
    · rw [List.mem_cons, List.mem_singleton]
      exact hagrees.cookies.imp_right And.left
    · rw [hleaves.readParsed_eq hagrees]
      conv_lhs => rw [hagrees.extras_eq]
  · refine ⟨.inr hcode, fun hok => ?_⟩
    rw [hok] at hcode
    obtain hcode | hcode := hcode <;> cases hcode

/-- With memory for everything the two parsers agree. -/
theorem readParsed_parseRequestMem (answers : Nat → Answer) (hmet : ∀ n, answers n ≠ .refused)
    (heap : Heap Block) (conn : Conn) (buffer : Bytes) (hbuffer : buffer.length ≤ 2 ^ 48)
    (received maxBodySize : Nat) (hmax : maxBodySize < Heap.PTRDIFF_MAX) (timeoutMs : Int) :
    match parseRequestMem answers heap conn buffer received maxBodySize timeoutMs,
        parseRequest conn buffer received maxBodySize timeoutMs with
    | (code, out, conn₁, heap'), (plainCode, parsed, conn₂) =>
        code = plainCode ∧ conn₁ = conn₂ ∧ readParsed heap' out = some parsed := by
  have henough : Enough Heap.PTRDIFF_MAX buffer maxBodySize := by
    refine ⟨?_, ?_, hmax⟩
    · rw [Heap.PTRDIFF_MAX]
      omega
    · decide
  have hshort : ∀ heap', ¬Short answers heap heap' Heap.PTRDIFF_MAX := by
    rintro heap' (⟨n, -, -, hn⟩ | hlt)
    · exact hmet n hn
    · exact Nat.lt_irrefl _ hlt
  have hparsed := parseRequestMem_parsed answers heap conn received timeoutMs henough
  generalize parseRequestMem answers heap conn buffer received maxBodySize timeoutMs = result
    at hparsed ⊢
  generalize parseRequest conn buffer received maxBodySize timeoutMs = plain at hparsed ⊢
  obtain ⟨code, out, conn₁, heap'⟩ := result
  obtain ⟨plainCode, parsed, conn₂⟩ := plain
  obtain ⟨extras, query, headers, cookies, hleaves, hwhy⟩ := hparsed
  dsimp only at hleaves hwhy ⊢
  obtain ⟨hagrees, hcode, hconn⟩ | ⟨-, hwhy⟩ := hwhy
  · refine ⟨hcode, hconn, ?_⟩
    have hquery := hagrees.query.resolve_right fun h => hshort _ h.2
    have hcookies := hagrees.cookies.resolve_right fun h => hshort _ h.2
    have hextras := hagrees.extras_eq
    rw [hquery, hcookies] at hextras
    rw [hleaves.readParsed_eq hagrees, hextras]
  · exact absurd hwhy (hshort _)

theorem readParsed_parseRequestMem_get :
    match parseRequestMem (fun _ => .moved) Heap.empty .quiet
          (ascii "GET /a?b=c HTTP/1.1\r\nCookie: d=e\r\n\r\n") 37 1024 30000,
        parseRequest .quiet (ascii "GET /a?b=c HTTP/1.1\r\nCookie: d=e\r\n\r\n") 37 1024 30000 with
    | (code, out, conn₁, heap'), (plainCode, parsed, conn₂) =>
        code = plainCode ∧ conn₁ = conn₂ ∧ readParsed heap' out = some parsed :=
  readParsed_parseRequestMem (fun _ => .moved) (fun _ => nofun) Heap.empty .quiet
    (ascii "GET /a?b=c HTTP/1.1\r\nCookie: d=e\r\n\r\n") (by decide) 37 1024 (by decide) 30000

end Mnet
