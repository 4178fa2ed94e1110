/-
  Mnet.RequestLine

  `parse_raw_request` against the first line of the buffer.

  `sscanf` sees the white-space separated words of the whole buffer and cuts
  them at its field widths; `parseRawRequest_eq` says so on lists of words.  The
  request line is the first line, so the two agree where its own words are what
  `sscanf` meets.
-/

import Mnet.ParseSpec

namespace Mnet

-- ============================================================================
-- Words
-- ============================================================================

/-- The white-space separated words of a text. -/
def words (text : Bytes) : List Bytes := Tokens.tokens isspace text

theorem words_append {text rest : Bytes} (hrest : ∀ b ∈ rest.head?, isspace b = true) :
    words (text ++ rest) = words text ++ words rest := Tokens.tokens_append hrest

theorem scanWord_of_words_nil {width : Nat} {text : Bytes} (h : words text = []) :
    scanWord width text = none := by
  have hnil : text.dropWhile isspace = [] :=
    List.dropWhile_eq_nil_iff.mpr (Tokens.tokens_eq_nil_iff.mp h)
  simp [scanWord, hnil]

/-- One conversion takes the first word, or as much of it as the field width
    allows. -/
theorem scanWord_of_words_cons {width : Nat} (hwidth : 0 < width) {text word : Bytes}
    {more : List Bytes} (h : words text = word :: more) :
    ∃ rest, scanWord width text = some (word.take width, rest) ∧
      words rest = if word.length ≤ width then more else word.drop width :: more := by
  obtain ⟨rest, hdrop, hne, hword, hrest, rfl⟩ := Tokens.exists_of_tokens_eq_cons h
  have hall : ((word ++ rest).takeWhile fun b => !isspace b) = word := by
    have hstop : (rest.takeWhile fun b => !isspace b) = [] := by
      cases rest with
      | nil => rfl
      | cons d rest => simp [hrest d (by simp)]
    rw [List.takeWhile_append_of_pos (fun b hb => by simp [hword b hb]), hstop, List.append_nil]
  have htake : word.take width ≠ [] := by
    rw [ne_eq, List.take_eq_nil_iff]
    rintro (h | h)
    · omega
    · exact hne h
  refine ⟨word.drop width ++ rest, ?_, ?_⟩
  · have hleft : (word ++ rest).drop (word.take width).length = word.drop width ++ rest := by
      rw [List.length_take, List.drop_append_of_le_length (Nat.min_le_right _ _)]
      congr 1
      by_cases hle : width ≤ word.length
      · rw [Nat.min_eq_left hle]
      · rw [Nat.min_eq_right (by omega), List.drop_length, List.drop_of_length_le (by omega)]
    simp only [scanWord, hdrop, hall]
    rw [if_neg htake, hleft]
  · split
    · next hle => rw [List.drop_of_length_le hle, List.nil_append, words]
    · next hgt =>
      have hleft : word.drop width ≠ [] := by
        rw [ne_eq, List.drop_eq_nil_iff]
        omega
      exact Tokens.tokens_run_append hleft (fun b hb => hword b (List.mem_of_mem_drop hb)) hrest

/-- What `sscanf(..., "%15s %2047s", ...)` makes of a list of words. -/
def scanned : List Bytes → Bool × Bytes × Bytes
  | [] => (false, [], [])
  | word :: more =>
      if word.length ≤ 15 then
        match more with
        | [] => (false, word, [])
        | target :: _ => (true, word, target.take 2047)
      else (true, word.take 15, (word.drop 15).take 2047)

/-- `parse_raw_request` on words: a line end in the head, and two conversions
    over the whole buffer. -/
theorem parseRawRequest_eq {buffer : Bytes} {e n : Nat} (hend : endOfHeaders buffer = some (e, n)) :
    parseRawRequest buffer =
      if LF ∈ buffer.take e then scanned (words (cstr buffer)) else (false, [], []) := by
  have hline : (memchr buffer LF e).isSome ↔ LF ∈ buffer.take e := by
    rw [memchr, Search.find_isSome_iff_infix]
    constructor
    · exact fun h => h.subset (List.mem_singleton_self _)
    · intro h
      obtain ⟨a, b, hab⟩ := List.append_of_mem h
      exact ⟨a, b, by rw [hab]; simp⟩
  simp only [parseRawRequest, hend]
  cases hchr : memchr buffer LF e with
  | none =>
      rw [hchr] at hline
      rw [if_neg (fun h => absurd (hline.mpr h) (by simp))]
  | some i =>
      rw [hchr] at hline
      rw [if_pos (hline.mp rfl)]
      cases hwords : words (cstr buffer) with
      | nil => simp only [scanWord_of_words_nil hwords, scanned]
      | cons word more =>
          obtain ⟨rest, hscan, hrest⟩ := scanWord_of_words_cons (by decide : 0 < 15) hwords
          simp only [hscan, scanned]
          split at hrest
          · next hle =>
            rw [if_pos hle, List.take_of_length_le hle]
            cases more with
            | nil => simp only [scanWord_of_words_nil hrest]
            | cons target more =>
                obtain ⟨rest', hscan', -⟩ :=
                  scanWord_of_words_cons (by decide : 0 < 2047) hrest
                simp only [hscan']
          · next hgt =>
            obtain ⟨rest', hscan', -⟩ := scanWord_of_words_cons (by decide : 0 < 2047) hrest
            rw [if_neg hgt]
            simp only [hscan']

-- ============================================================================
-- The first line
-- ============================================================================

/-- The bytes before the first LF. -/
def firstLine (buffer : Bytes) : Bytes := buffer.takeWhile (· ≠ LF)

/-- Method and target of the first line: its first two words, where they fit
    `method_out` and `path_out`. -/
def requestLineTokens (buffer : Bytes) : Option (Bytes × Bytes) :=
  match words (firstLine buffer) with
  | method :: target :: _ =>
      if method.length ≤ 15 ∧ target.length ≤ 2047 then some (method, target) else none
  | _ => none

/-- The request line is accepted exactly when its two tokens fit, and then it
    is these that are stored. -/
def RequestLineTaken (buffer : Bytes) : Prop :=
  ((parseRawRequest buffer).1 = true ↔ (requestLineTokens buffer).isSome) ∧
    ((parseRawRequest buffer).1 = true → requestLineTokens buffer = some (parseRawRequest buffer).2)

/-- No word, or a single one that fits `method_out`. -/
def atMostOneWord : List Bytes → Bool
  | [] => true
  | [word] => decide (word.length ≤ 15)
  | _ => false

/-- Where another line follows in the head, the tokens of the first line fit or
    the buffer has not the words for two conversions; where none does, they do
    not fit. -/
def RequestLineFits (buffer : Bytes) (e : Nat) : Prop :=
  if LF ∈ buffer.take e then (requestLineTokens buffer).isSome ∨
    atMostOneWord (words buffer) = true
  else requestLineTokens buffer = none

/-- Two conversions need two words, or one to cut in two. -/
theorem scanned_fst (ws : List Bytes) : (scanned ws).1 = false ↔ atMostOneWord ws = true := by
  match ws with
  | [] => simp [scanned, atMostOneWord]
  | [word] =>
      by_cases h : word.length ≤ 15
      · simp [scanned, atMostOneWord, h]
      · simp [scanned, atMostOneWord, h]
  | word :: target :: more =>
      by_cases h : word.length ≤ 15
      · simp [scanned, atMostOneWord, h]
      · simp [scanned, atMostOneWord, h]

/-- The words of the first line come first. -/
theorem words_firstLine (buffer : Bytes) :
    ∃ more, words buffer = words (firstLine buffer) ++ more := by
  have hsplit : buffer = firstLine buffer ++ buffer.dropWhile (· ≠ LF) :=
    List.takeWhile_append_dropWhile.symm
  refine ⟨words (buffer.dropWhile (· ≠ LF)), ?_⟩
  conv_lhs => rw [hsplit]
  refine words_append fun b hb => ?_
  have h := List.head?_dropWhile_not (· ≠ LF) buffer
  rw [hb] at h
  obtain rfl : b = LF := by simpa using h
  decide

/-- `parse_raw_request` takes the request line from the first line and whole
    exactly when it fits. -/
theorem requestLineTaken_iff {buffer : Bytes} {e n : Nat} (h0 : (0 : Byte) ∉ buffer)
    (hend : endOfHeaders buffer = some (e, n)) :
    RequestLineTaken buffer ↔ RequestLineFits buffer e := by
  have hraw := parseRawRequest_eq hend
  rw [cstr_of_noNul h0] at hraw
  by_cases hlf : LF ∈ buffer.take e
  · rw [if_pos hlf] at hraw
    rw [RequestLineFits, if_pos hlf]
    obtain ⟨more, hwords⟩ := words_firstLine buffer
    cases htokens : requestLineTokens buffer with
    | some tokens =>
        have htaken : parseRawRequest buffer = (true, tokens) := by
          unfold requestLineTokens at htokens
          match hline : words (firstLine buffer) with
          | [] => simp [hline] at htokens
          | [method] => simp [hline] at htokens
          | method :: target :: others =>
              rw [hline] at htokens
              dsimp only at htokens
              split at htokens
              · next hfits =>
                rw [hraw, hwords, hline, ← Option.some.inj htokens, List.cons_append,
                  List.cons_append, scanned, if_pos hfits.1, List.take_of_length_le hfits.2]
              · simp at htokens
        simp [RequestLineTaken, htokens, htaken]
    | none =>
        rw [← scanned_fst, ← hraw]
        simp [RequestLineTaken, htokens]
  · rw [if_neg hlf] at hraw
    rw [RequestLineFits, if_neg hlf]
    simp [RequestLineTaken, hraw]

/-- A request with a header line. -/
def twoLineGet : Bytes := ascii "GET /a HTTP/1.1\r\nHost: x\r\n\r\n"

theorem requestLineTaken_twoLineGet :
    RequestLineTaken twoLineGet ↔ RequestLineFits twoLineGet 24 :=
  requestLineTaken_iff (n := 4) (by decide) (by decide +kernel)

/-- A request without one. -/
def oneLineGet : Bytes := ascii "GET /a HTTP/1.1\r\n\r\n"

/-- The only LF before the blank line is part of it, so that no first line is
    found. -/
theorem not_requestLineTaken :
    ¬ ∀ (buffer : Bytes) (e n : Nat), (0 : Byte) ∉ buffer → endOfHeaders buffer = some (e, n) →
      RequestLineTaken buffer := by
  intro h
  have htaken := h oneLineGet 15 4 (by decide) (by decide +kernel)
  have htokens : (requestLineTokens oneLineGet).isSome = true := by decide +kernel
  have hraw : (parseRawRequest oneLineGet).1 = false := by decide +kernel
  have hraw' := htaken.1.mpr htokens
  rw [hraw] at hraw'
  exact absurd hraw' Bool.false_ne_true

end Mnet
