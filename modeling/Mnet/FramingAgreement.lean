/-
  Mnet.FramingAgreement

  The framing of a body against the header list a handler sees.

  `read_full_body` takes the length from its own scan of the text, and
  `parse_headers` builds the list from tokens.  A field behind a bare CR is in
  the list without having been scanned; and the scan computes in `size_t`, so a
  number from 2^64 on can come out as a small one when the limit is close to
  2^64.  `ScansAgree` excludes both.
-/

import Mnet.Lib.Numerals
import Mnet.HeaderScan

namespace Mnet

-- ============================================================================
-- Decimal numbers
-- ============================================================================

/-- The number a string of digits writes, read on from `n`. -/
def decimalFrom (n : Nat) (digits : Bytes) : Nat :=
  digits.foldl (fun n b => n * 10 + digitVal b) n

/-- The value of a decimal number, none when the text is not one. -/
def decimalValue (text : Bytes) : Option Nat :=
  if text ≠ [] ∧ text.all isDigit = true then some (decimalFrom 0 text) else none

theorem decimalFrom_cons (n : Nat) (b : Byte) (digits : Bytes) :
    decimalFrom n (b :: digits) = decimalFrom (n * 10 + digitVal b) digits := by
  simp only [decimalFrom, List.foldl_cons]

/-- The digit loop computes the number modulo 2^64. -/
theorem foldl_scanDigit_parsed (maxBodySize : Nat) (digits : Bytes) {st : DigitScan} {n : Nat}
    (h : st.parsed = n % SIZE_T) :
    (digits.foldl (scanDigit maxBodySize) st).parsed = decimalFrom n digits % SIZE_T := by
  induction digits generalizing st n with
  | nil => simpa [decimalFrom] using h
  | cons b digits ih =>
      rw [List.foldl_cons, decimalFrom_cons]
      refine ih ?_
      simp only [scanDigit, h]
      rw [Nat.add_mod, Nat.mul_mod, Nat.mod_mod, ← Nat.mul_mod, ← Nat.add_mod]

/-- It reports no overflow for a `size_t` up to the limit. -/
theorem foldl_scanDigit_overflow {maxBodySize : Nat} {digits : Bytes} {st : DigitScan}
    (hst : st.overflow = false) (h : decimalFrom st.parsed digits ≤ maxBodySize)
    (hsize : decimalFrom st.parsed digits < SIZE_T) :
    (digits.foldl (scanDigit maxBodySize) st).overflow = false := by
  induction digits generalizing st with
  | nil => exact hst
  | cons b digits ih =>
      rw [decimalFrom_cons] at h hsize
      have hle : st.parsed * 10 + digitVal b ≤ decimalFrom (st.parsed * 10 + digitVal b) digits :=
        Numerals.le_foldl (by omega) digitVal digits _
      have hmod : (st.parsed * 10 + digitVal b) % SIZE_T = st.parsed * 10 + digitVal b :=
        Nat.mod_eq_of_lt (by omega)
      refine ih ?_ ?_ (by simpa only [scanDigit, hmod] using hsize)
      · simp only [scanDigit, hst, hmod, Bool.false_or, Bool.or_eq_false_iff,
          decide_eq_false_iff_not]
        omega
      · simpa only [scanDigit, hmod] using h

-- ============================================================================
-- The value of a header line
-- ============================================================================

theorem dropWhile_append_stop {p : Byte → Bool} {c : Byte} (hc : p c = false) (a rest : Bytes) :
    (a ++ c :: rest).dropWhile p = a.dropWhile p ++ c :: rest := by
  induction a with
  | nil => simp [hc]
  | cons b a ih =>
      rw [List.cons_append, List.dropWhile_cons, List.dropWhile_cons]
      split
      · exact ih
      · rfl

theorem takeWhile_append_stop {p : Byte → Bool} {c : Byte} (hc : p c = false) (a rest : Bytes) :
    (a ++ c :: rest).takeWhile p = a.takeWhile p := by
  induction a with
  | nil => simp [hc]
  | cons b a ih =>
      rw [List.cons_append, List.takeWhile_cons, List.takeWhile_cons]
      split
      · rw [ih]
      · rfl

theorem isBlank_of_isBreak {c : Byte} (h : isBreak c = true) : isBlank c = false := by
  have hc : c = CR ∨ c = LF := by simpa [isBreak, CRLF] using h
  rcases hc with rfl | rfl
  · decide
  · decide

theorem isDigit_of_isBreak {c : Byte} (h : isBreak c = true) : isDigit c = false := by
  have hc : c = CR ∨ c = LF := by simpa [isBreak, CRLF] using h
  rcases hc with rfl | rfl
  · decide
  · decide

/-- What is read off the value part of a header line that ends at `c`. -/
theorem contentLengthValue_line (maxBodySize : Nat) {part rest : Bytes} {c : Byte}
    (hc : isBreak c = true) (hpart : ∀ b ∈ part, isBreak b = false) :
    contentLengthValue maxBodySize (part ++ c :: rest) =
      match decimalValue (part.dropWhile isBlank) with
      | none => .error (-2)
      | some n =>
          if ((part.dropWhile isBlank).foldl (scanDigit maxBodySize) {}).overflow then .error (-1)
          else .ok (n % SIZE_T) := by
  have hvalue : ∀ b ∈ part.dropWhile isBlank, isBreak b = false := fun b hb =>
    hpart b ((List.dropWhile_suffix _).subset hb)
  unfold contentLengthValue
  rw [dropWhile_append_stop (isBlank_of_isBreak hc)]
  generalize part.dropWhile isBlank = value at hvalue
  dsimp only
  rw [takeWhile_append_stop (isDigit_of_isBreak hc), dropWhile_append_stop (isDigit_of_isBreak hc)]
  have hsplit : value.takeWhile isDigit ++ value.dropWhile isDigit = value :=
    List.takeWhile_append_dropWhile
  have hc' : c = CR ∨ c = LF := by simpa [isBreak, CRLF] using hc
  cases hrest : value.dropWhile isDigit with
  | nil =>
      rw [hrest, List.append_nil] at hsplit
      have hall : value.all isDigit = true := by
        rw [← hsplit, List.all_eq_true]
        exact fun b hb => List.mem_takeWhile_imp hb
      rw [hsplit]
      have hstop : ¬ (some c ≠ some CR ∧ some c ≠ some LF) := by
        rcases hc' with rfl | rfl <;> simp
      by_cases hne : value = []
      · simp [hne, decimalValue]
      · have hval : decimalValue value = some (decimalFrom 0 value) := by
          rw [decimalValue, if_pos ⟨hne, hall⟩]
        have hparsed : (value.foldl (scanDigit maxBodySize) {}).parsed =
            decimalFrom 0 value % SIZE_T :=
          foldl_scanDigit_parsed maxBodySize value rfl
        rw [hval, List.nil_append, List.head?_cons, if_neg (not_or.mpr ⟨hne, hstop⟩), hparsed]
  | cons b tail =>
      have hmem : b ∈ value := (List.dropWhile_suffix isDigit).subset (hrest ▸ List.mem_cons_self ..)
      have hb := hvalue b hmem
      have hdigit : isDigit b = false := by
        have h := List.head?_dropWhile_not isDigit value
        rw [hrest] at h
        simpa using h
      have hval : decimalValue value = none := by
        rw [decimalValue, if_neg]
        rintro ⟨-, hall⟩
        rw [List.all_eq_true] at hall
        rw [hall b hmem] at hdigit
        exact absurd hdigit (by decide)
      have hstop : some b ≠ some CR ∧ some b ≠ some LF := by
        constructor
        · rintro h
          rw [Option.some.inj h] at hb
          exact absurd hb (by decide)
        · rintro h
          rw [Option.some.inj h] at hb
          exact absurd hb (by decide)
      rw [hval, List.cons_append, List.head?_cons, if_pos (.inr hstop)]

-- ============================================================================
-- The two readings of a length
-- ============================================================================

/-- The text of the line from offset `i` on, up to the next CR or LF. -/
def lineFrom (buffer : Bytes) (i : Nat) : Bytes :=
  ((cstr buffer).drop i).takeWhile fun b => !isBreak b

/-- The number behind a `content-length:` at offset `i`. -/
def lineNumber (buffer : Bytes) (i : Nat) : Option Nat :=
  decimalValue ((lineFrom buffer (i + 15)).dropWhile isBlank)

/-- The length of a body against the Content-Length fields of a list: the value
    of the only one, or 0 without one. -/
def LengthAgrees (fields : List (Bytes × Bytes)) (len : Nat) : Prop :=
  match fields with
  | [] => len = 0
  | [field] => decimalValue field.2 = some len
  | _ => False

/-- The stored headers name no transfer coding, and the length of the body is
    that of their one Content-Length field, or 0 without one. -/
def FramingAgrees (req : ParsedRequest) : Prop :=
  (∀ field ∈ req.extras.headers, strcaseeq field.1 (ascii "Transfer-Encoding") = false) ∧
    LengthAgrees
      (req.extras.headers.filter fun field => strcaseeq field.1 (ascii "Content-Length"))
      req.bodyLength

/-- The Content-Length lines the scan finds and those behind a bare CR: none of
    the latter, and a number below 2^64; or one, the number 0, and none of the
    former. -/
def LengthScansAgree (buffer : Bytes) (scanned : List Nat) : List Nat → Prop
  | [] => ∀ i ∈ scanned, ∀ n ∈ lineNumber buffer i, n < SIZE_T
  | [i] => scanned = [] ∧ lineNumber buffer i = some 0
  | _ => False

instance (buffer : Bytes) (scanned : List Nat) :
    (bare : List Nat) → Decidable (LengthScansAgree buffer scanned bare)
  | [] => inferInstanceAs (Decidable (∀ i ∈ scanned, ∀ n ∈ lineNumber buffer i, n < SIZE_T))
  | [i] => inferInstanceAs (Decidable (scanned = [] ∧ lineNumber buffer i = some 0))
  | _ :: _ :: _ => isFalse id

/-- The condition, for a head that ends at `e`. -/
def ScansAgreeUpTo (buffer : Bytes) (e : Nat) : Prop :=
  bareCRLines buffer transferEncodingNeedle e = [] ∧
    LengthScansAgree buffer (contentLengthLines buffer e)
      (bareCRLines buffer contentLengthNeedle e)

instance (buffer : Bytes) (e : Nat) : Decidable (ScansAgreeUpTo buffer e) :=
  inferInstanceAs (Decidable (_ ∧ _))

def ScansAgree (buffer : Bytes) : Prop :=
  ∀ sep ∈ endOfHeaders buffer, ScansAgreeUpTo buffer sep.1

instance (buffer : Bytes) : Decidable (ScansAgree buffer) :=
  inferInstanceAs (Decidable (∀ sep ∈ endOfHeaders buffer, ScansAgreeUpTo buffer sep.1))

/-- A line that starts in the head, in the string. -/
theorem drop_start {buffer : Bytes} {e n : Nat} (hend : endOfHeaders buffer = some (e, n))
    {i : Nat} (hi : i < e) :
    ∃ c rest, (cstr buffer).drop i = Tokens.runAt isBreak (buffer.take e) i ++ c :: rest ∧
      isBreak c = true := by
  obtain ⟨d, rest, hsplit, hbreak, hlen⟩ := cstr_eq_head_append hend
  have hrun : Tokens.runAt isBreak (buffer.take e ++ d :: rest) i =
      Tokens.runAt isBreak (buffer.take e) i := by
    refine Tokens.runAt_append (fun c hc => ?_) (by omega)
    obtain rfl : d = c := by simpa using hc
    exact hbreak
  have htake : Tokens.runAt isBreak (buffer.take e) i ++
      ((cstr buffer).drop i).dropWhile (fun b => !isBreak b) = (cstr buffer).drop i := by
    rw [← hrun, ← hsplit]
    exact List.takeWhile_append_dropWhile
  cases hdrop : ((cstr buffer).drop i).dropWhile (fun b => !isBreak b) with
  | nil =>
      have hall : ∀ b ∈ (cstr buffer).drop i, (!isBreak b) = true := List.dropWhile_eq_nil_iff.mp hdrop
      have hmem : d ∈ (cstr buffer).drop i := by
        rw [hsplit, List.drop_append_of_le_length (by omega)]
        simp
      have hd := hall d hmem
      rw [hbreak] at hd
      exact absurd hd (by decide)
  | cons c tail =>
      rw [hdrop] at htake
      refine ⟨c, tail, htake.symm, ?_⟩
      have h := List.head?_dropWhile_not (fun b => !isBreak b) ((cstr buffer).drop i)
      rw [hdrop] at h
      simpa using h

/-- The value of a `content-length:` line: what the framing makes of it, and
    the field the tokenizer stores. -/
theorem contentLengthValue_at {buffer : Bytes} {e n : Nat}
    (hend : endOfHeaders buffer = some (e, n)) {i : Nat} (hi : i < e)
    (hocc : Search.OccursAt contentLengthNeedle (lower (cstr buffer)) i) (maxBodySize : Nat) :
    contentLengthValue maxBodySize ((cstr buffer).drop (i + 15)) =
      (match lineNumber buffer i with
      | none => .error (-2)
      | some n =>
          if (((lineFrom buffer (i + 15)).dropWhile isBlank).foldl
            (scanDigit maxBodySize) {}).overflow then .error (-1)
          else .ok (n % SIZE_T)) ∧
      decimalValue (fieldAt 14 (Tokens.runAt isBreak (buffer.take e) i)).2 =
        lineNumber buffer i := by
  obtain ⟨d, tail, hsplit, hbreak, hlen⟩ := cstr_eq_head_append hend
  obtain ⟨c, rest, hdrop, hc⟩ := drop_start hend hi
  have hneedle : ascii "content-length" ++ [58] = contentLengthNeedle := by decide
  have hstart : startsWithName (ascii "content-length")
      (Tokens.runAt isBreak (buffer.take e) i) = true := by
    rw [startsWithName_runAt fieldName_contentLength, hneedle]
    rw [hsplit, ← hneedle, occursAt_head_iff fieldName_contentLength hbreak (by omega)] at hocc
    rwa [← hneedle]
  have hle : 15 ≤ (Tokens.runAt isBreak (buffer.take e) i).length := by
    have h := (List.isPrefixOf_iff_prefix.mp hstart).length_le
    rw [hneedle] at h
    simpa [lower, contentLengthNeedle, ascii] using h
  have hclean : ∀ b ∈ Tokens.runAt isBreak (buffer.take e) i, isBreak b = false :=
    fun b hb => Tokens.not_delim_of_mem_runAt hb
  generalize Tokens.runAt isBreak (buffer.take e) i = line at hdrop hle hclean
  have hpart : (cstr buffer).drop (i + 15) = line.drop 15 ++ c :: rest := by
    rw [← List.drop_drop, hdrop, List.drop_append_of_le_length hle]
  have hpartClean : ∀ b ∈ line.drop 15, isBreak b = false := fun b hb =>
    hclean b (List.mem_of_mem_drop hb)
  have hline : lineFrom buffer (i + 15) = line.drop 15 := by
    rw [lineFrom, hpart, takeWhile_append_stop (by simp [hc])]
    refine List.takeWhile_eq_self_iff.mpr fun b hb => ?_
    simp [hpartClean b hb]
  constructor
  · rw [hpart, contentLengthValue_line maxBodySize hc hpartClean]
    simp only [lineNumber, hline]
  · simp only [lineNumber, hline, fieldAt]

/-- The offsets of the fields of a name are those of the text scan and those
    behind a CR, which exclude each other. -/
theorem length_filter_or {p q : Nat → Bool} {l : List Nat}
    (h : ∀ i ∈ l, ¬ (p i = true ∧ q i = true)) :
    (l.filter fun i => p i || q i).length = (l.filter p).length + (l.filter q).length := by
  induction l with
  | nil => rfl
  | cons i l ih =>
      have ih := ih fun j hj => h j (List.mem_cons_of_mem _ hj)
      have hi := h i (List.mem_cons_self ..)
      rw [List.filter_cons, List.filter_cons, List.filter_cons]
      cases hp : p i <;> cases hq : q i <;> simp_all <;> omega

theorem not_lineInitial_and_bareCR (buffer needle : Bytes) (i : Nat) :
    ¬ (lineInitial buffer needle i = true ∧ bareCR buffer needle i = true) := by
  simp only [lineInitial, bareCR, Bool.and_eq_true, Bool.or_eq_true, beq_iff_eq, bne_iff_ne,
    decide_eq_true_eq]
  rintro ⟨⟨-, h0 | hlf⟩, -, hne, hcr⟩
  · exact hne h0
  · rw [hcr] at hlf
    exact cr_ne_lf (Option.some.inj hlf)

theorem strcaseeq_eq (name : Bytes) (field : Bytes × Bytes) :
    strcaseeq field.1 name = (lower field.1 == lower name) := rfl

/-- No stored field of a name, exactly when neither reading finds one. -/
theorem no_field_iff {buffer name : Bytes} (hname : FieldName name) {e n : Nat}
    (hend : endOfHeaders buffer = some (e, n)) {headers : List (Bytes × Bytes)}
    (hheaders : parseHeaders (buffer.take e) = some headers)
    (hscan : lineInitialMatches buffer (name ++ [58]) e 0 = []) :
    (∀ field ∈ headers, (lower field.1 == name) = false) ↔
      bareCRLines buffer (name ++ [58]) e = [] := by
  have hfilter := filter_headers hname hend hheaders
  rw [lineInitialMatches_zero hname.scan, List.filter_eq_nil_iff] at hscan
  have hor : ((List.range e).filter fun i =>
      lineInitial buffer (name ++ [58]) i || bareCR buffer (name ++ [58]) i) =
        bareCRLines buffer (name ++ [58]) e := by
    refine List.filter_congr fun i hi => ?_
    simp only [hscan i hi, Bool.false_or]
  rw [hor] at hfilter
  have hnil : headers.filter (fun field => lower field.1 == name) = [] ↔
      ∀ field ∈ headers, (lower field.1 == name) = false := by
    simp [List.filter_eq_nil_iff]
  rw [← hnil, hfilter, List.map_eq_nil_iff]

/-- What the framing found when it did not fail. -/
theorem contentLength_ok {buffer : Bytes} {e maxBodySize len : Nat}
    (h : contentLength buffer e maxBodySize = .ok len) :
    transferEncodingLines buffer e = [] ∧
      ((contentLengthLines buffer e = [] ∧ len = 0) ∨
        ∃ i, contentLengthLines buffer e = [i] ∧
          contentLengthValue maxBodySize ((cstr buffer).drop (i + 15)) = .ok len) := by
  simp only [contentLength] at h
  split at h
  · simp at h
  · next hone =>
    split at h
    · simp at h
    · next hte =>
      refine ⟨not_not.mp hte, ?_⟩
      match hscan : contentLengthLines buffer e with
      | [] =>
          rw [hscan] at h
          exact .inl ⟨rfl, (Except.ok.inj h).symm⟩
      | [i] =>
          rw [hscan] at h
          exact .inr ⟨i, rfl, h⟩
      | _ :: _ :: _ =>
          rw [hscan] at hone
          exact absurd (by simp) hone

/-- The value of the one line the scan found: the framing took it modulo
    2^64. -/
theorem lineNumber_of_ok {buffer : Bytes} {e n len maxBodySize i : Nat}
    (hend : endOfHeaders buffer = some (e, n)) (hi : i < e)
    (hocc : Search.OccursAt contentLengthNeedle (lower (cstr buffer)) i)
    (h : contentLengthValue maxBodySize ((cstr buffer).drop (i + 15)) = .ok len) :
    ∃ k, lineNumber buffer i = some k ∧ len = k % SIZE_T := by
  rw [(contentLengthValue_at hend hi hocc maxBodySize).1] at h
  cases hnum : lineNumber buffer i with
  | none => simp [hnum] at h
  | some k =>
      rw [hnum] at h
      dsimp only at h
      split at h
      · simp at h
      · exact ⟨k, rfl, (Except.ok.inj h).symm⟩

/-- A line the scan finds stands in the head. -/
theorem of_mem_contentLengthLines {buffer : Bytes} {e i : Nat}
    (h : i ∈ contentLengthLines buffer e) :
    i < e ∧ Search.OccursAt contentLengthNeedle (lower (cstr buffer)) i := by
  have hscan : contentLengthLines buffer e =
      (List.range e).filter (lineInitial buffer contentLengthNeedle) :=
    lineInitialMatches_zero fieldName_contentLength.scan e
  rw [hscan, List.mem_filter, List.mem_range, lineInitial] at h
  simp only [Bool.and_eq_true, decide_eq_true_eq] at h
  exact ⟨h.1, h.2.1⟩

/-- What the list holds of a Content-Length, against what the framing took from
    the scan. -/
theorem lengthAgrees_iff {buffer : Bytes} {e n len maxBodySize : Nat}
    (hend : endOfHeaders buffer = some (e, n))
    (hlength : contentLength buffer e maxBodySize = .ok len) :
    LengthAgrees (((List.range e).filter fun i => lineInitial buffer contentLengthNeedle i ||
        bareCR buffer contentLengthNeedle i).map
          fun i => fieldAt 14 (Tokens.runAt isBreak (buffer.take e) i)) len ↔
      LengthScansAgree buffer (contentLengthLines buffer e)
        (bareCRLines buffer contentLengthNeedle e) := by
  have hscan : contentLengthLines buffer e =
      (List.range e).filter (lineInitial buffer contentLengthNeedle) :=
    lineInitialMatches_zero fieldName_contentLength.scan e
  have hcount := length_filter_or (l := List.range e)
    fun i _ => not_lineInitial_and_bareCR buffer contentLengthNeedle i
  rw [← hscan, ← bareCRLines] at hcount
  generalize hall : (List.range e).filter (fun i => lineInitial buffer contentLengthNeedle i ||
    bareCR buffer contentLengthNeedle i) = all at hcount
  have hscanned : ∀ i ∈ contentLengthLines buffer e, i ∈ all := by
    intro i hi
    rw [hscan, List.mem_filter] at hi
    rw [← hall, List.mem_filter]
    exact ⟨hi.1, by simp [hi.2]⟩
  have hbare : ∀ i ∈ bareCRLines buffer contentLengthNeedle e, i ∈ all := by
    intro i hi
    rw [bareCRLines, List.mem_filter] at hi
    rw [← hall, List.mem_filter]
    exact ⟨hi.1, by simp [hi.2]⟩
  have hvalue : ∀ i ∈ all, decimalValue (fieldAt 14
      (Tokens.runAt isBreak (buffer.take e) i)).2 = lineNumber buffer i := by
    intro i hi
    rw [← hall, List.mem_filter, List.mem_range, lineInitial, bareCR] at hi
    simp only [Bool.or_eq_true, Bool.and_eq_true, decide_eq_true_eq] at hi
    obtain ⟨hlt, ⟨hocc, -⟩ | ⟨hocc, -⟩⟩ := hi
    · exact (contentLengthValue_at hend hlt hocc maxBodySize).2
    · exact (contentLengthValue_at hend hlt hocc maxBodySize).2
  obtain ⟨-, ⟨hnil, rfl⟩ | ⟨i, hone, hlen⟩⟩ := contentLength_ok hlength
  · rw [hnil] at hcount ⊢
    generalize bareCRLines buffer contentLengthNeedle e = bare at hcount hbare ⊢
    rcases bare with _ | ⟨i, _ | ⟨i', bare⟩⟩
    · cases all with
      | nil => simp [LengthAgrees, LengthScansAgree]
      | cons j all => simp at hcount
    · rcases all with _ | ⟨j, _ | ⟨j', all⟩⟩
      · simp at hcount
      · obtain rfl : i = j := by simpa using hbare i (by simp)
        simp [LengthAgrees, LengthScansAgree, hvalue i (by simp)]
      · simp at hcount
    · rcases all with _ | ⟨j, _ | ⟨j', all⟩⟩
      · simp at hcount
      · simp at hcount
      · simp [LengthAgrees, LengthScansAgree]
  · have hi : i ∈ contentLengthLines buffer e := by simp [hone]
    have hi' := of_mem_contentLengthLines hi
    obtain ⟨k, hk, rfl⟩ := lineNumber_of_ok hend hi'.1 hi'.2 hlen
    have hmem := hscanned i hi
    rw [hone] at hcount ⊢
    generalize bareCRLines buffer contentLengthNeedle e = bare at hcount ⊢
    rcases bare with _ | ⟨b, bare⟩
    · rcases all with _ | ⟨j, _ | ⟨j', all⟩⟩
      · simp at hcount
      · obtain rfl : i = j := by simpa using hmem
        have hpos : 0 < SIZE_T := by decide
        simp only [List.map_cons, List.map_nil, LengthAgrees, LengthScansAgree,
          hvalue i (by simp), hk, List.mem_singleton, forall_eq, Option.mem_def,
          Option.some.injEq]
        rw [forall_eq']
        constructor
        · intro h
          rw [h]
          exact Nat.mod_lt _ hpos
        · intro h
          exact (Nat.mod_eq_of_lt h).symm
      · simp at hcount
    · rcases all with _ | ⟨j, _ | ⟨j', all⟩⟩
      · simp at hcount
      · simp at hcount
      · cases bare <;> simp [LengthAgrees, LengthScansAgree]

/-- In an accepted request the framing agrees with the stored headers exactly
    when the two scans of the head do. -/
theorem framingAgrees_iff {conn conn' : Conn} {buffer : Bytes} {received maxBodySize : Nat}
    {timeoutMs : Int} {req : ParsedRequest}
    (h : parseRequest conn buffer received maxBodySize timeoutMs = (.ok, req, conn')) :
    FramingAgrees req ↔ ScansAgree buffer := by
  obtain ⟨method, path, m, r, e, n, headers, -, -, hend, hbody, hcode, hheaders, rfl⟩ :=
    parseRequest_ok h
  obtain ⟨hlength, -⟩ := readFullBody_ok hend hbody hcode
  have hagree : ScansAgree buffer ↔ ScansAgreeUpTo buffer e := by
    simp [ScansAgree, hend]
  have hteName : lower (ascii "Transfer-Encoding") = ascii "transfer-encoding" := by decide
  have hclName : lower (ascii "Content-Length") = ascii "content-length" := by decide
  have hte := no_field_iff fieldName_transferEncoding hend hheaders (contentLength_ok hlength).1
  have hcl := filter_headers fieldName_contentLength hend hheaders
  rw [hagree, FramingAgrees, ScansAgreeUpTo]
  simp only [assembled, splitTarget_headers, splitTarget_bodyLength, strcaseeq_eq, hteName,
    hclName]
  rw [hte, hcl]
  exact and_congr_right fun _ => lengthAgrees_iff hend hlength

/-- An ordinary request with a body of two bytes. -/
def plainPost : Bytes := ascii "POST / HTTP/1.1\r\nContent-Length: 2\r\n\r\nhi"

theorem framingAgrees_plainPost :
    FramingAgrees (parseRequest (.opened [] (fun _ => 0) fun _ => {}) plainPost plainPost.length
      100 1000).2.1 :=
  (framingAgrees_iff (Prod.ext (by decide +kernel) rfl)).mpr (by decide +kernel)

/-- A request whose transfer coding stands behind a bare CR. -/
def bareCRPost : Bytes := ascii "POST / HTTP/1.1\r\nA: b\rTransfer-Encoding: chunked\r\n\r\n"

/-- The scan does not see a Transfer-Encoding behind a bare CR, and the list
    holds it. -/
theorem not_framingAgrees :
    ¬ ∀ (conn conn' : Conn) (buffer : Bytes) (received maxBodySize : Nat) (timeoutMs : Int)
        (req : ParsedRequest),
      parseRequest conn buffer received maxBodySize timeoutMs = (.ok, req, conn') →
        FramingAgrees req := by
  intro h
  have hagrees := (h (.opened [] (fun _ => 0) fun _ => {}) _ bareCRPost bareCRPost.length 100 1000 _
    (Prod.ext (by decide +kernel) rfl)).1
  revert hagrees
  decide +kernel

end Mnet
