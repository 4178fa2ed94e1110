/-
  Mnet.SameHead

  Two buffers that hold the same head: what of a request the parser reads off
  the head alone, and where it looks further.

  Framing and header list are read off the head.  The request line is not:
  `sscanf` runs over the whole buffer, and takes words from behind the head when
  the head has too few.
-/

import Mnet.FramingAgreement
import Mnet.HeadReading
import Mnet.RequestLine

namespace Mnet

open Search (OccursAt)

-- ============================================================================
-- The separator
-- ============================================================================

/-- A prefix with a blank line is cut where the whole is, unless a CRLFCRLF
    stands behind an LFLF. -/
theorem endOfHeaders_of_isPrefix {p w : Bytes} (hp : p <+: w) (hblank : hasBlankLine p = true)
    (hchosen : FirstBlankLineChosen w) : endOfHeaders p = endOfHeaders w := by
  rw [hasBlankLine, Bool.or_eq_true] at hblank
  cases hp4 : strstr p crlfcrlf with
  | some i => simp only [endOfHeaders, hp4, strstr_of_isPrefix hp hp4]
  | none =>
      rw [hp4] at hblank
      rcases hblank with h | h
      · exact absurd h (by simp)
      · obtain ⟨j, hp2⟩ := Option.isSome_iff_exists.mp h
        have hw2 := strstr_of_isPrefix hp hp2
        cases hw4 : strstr w crlfcrlf with
        | none => simp only [endOfHeaders, hp4, hw4, hp2, hw2]
        | some i =>
            -- the CRLFCRLF ends before the LFLF does, so the prefix has it too
            have hlt := hchosen i hw4 j hw2
            have hsep := crlfcrlf_before_lflf (find_of_strstr hw4) (find_of_strstr hw2) hlt
            have hle : j + lflf.length ≤ (cstr p).length := Search.find_le_length hp2
            have h2 : lflf.length = 2 := rfl
            have h4 : crlfcrlf.length = 4 := rfl
            have hfound := strstr_isPrefix_of_le hp hw4 (by omega)
            rw [hp4] at hfound
            simp at hfound

/-- Two buffers cut at one place behind the same text. -/
structure SameHead (p w : Bytes) (e n : Nat) : Prop where
  left : endOfHeaders p = some (e, n)
  right : endOfHeaders w = some (e, n)
  head : p.take e = w.take e

-- ============================================================================
-- Framing
-- ============================================================================

theorem lineFrom_head {buffer : Bytes} {e n j : Nat} (hend : endOfHeaders buffer = some (e, n))
    (hj : j ≤ e) :
    lineFrom buffer j = ((buffer.take e).drop j).takeWhile fun b => !isBreak b := by
  obtain ⟨d, rest, hsplit, hbreak, hlen⟩ := cstr_eq_head_append hend
  rw [lineFrom, hsplit, List.drop_append_of_le_length (by omega),
    takeWhile_append_stop (by simp [hbreak])]

section Framing

variable {p w : Bytes} {e n : Nat}

theorem SameHead.lineInitial (h : SameHead p w e n) {name : Bytes} (hname : FieldName name)
    {i : Nat} (hi : i < e) :
    lineInitial p (name ++ [58]) i = lineInitial w (name ++ [58]) i := by
  obtain ⟨d, rest, hp, hd, hlen⟩ := cstr_eq_head_append h.left
  obtain ⟨d', rest', hw, hd', hlen'⟩ := cstr_eq_head_append h.right
  have hbefore : p[i - 1]? = w[i - 1]? := by
    rw [← List.getElem?_take_of_lt (show i - 1 < e by omega), h.head,
      List.getElem?_take_of_lt (show i - 1 < e by omega)]
  have hocc : OccursAt (name ++ [58]) (lower (cstr p)) i ↔
      OccursAt (name ++ [58]) (lower (cstr w)) i := by
    rw [hp, hw, occursAt_head_iff hname hd (by omega), occursAt_head_iff hname hd' (by omega),
      h.head]
  simp only [Mnet.lineInitial, hbefore, decide_eq_decide.mpr hocc]

/-- A needle that starts in the head ends in it. -/
theorem SameHead.occursAt_le (h : SameHead p w e n) {name : Bytes} (hname : FieldName name)
    {i : Nat} (hi : i < e) (hocc : OccursAt (name ++ [58]) (lower (cstr p)) i) :
    i + (name ++ [58]).length ≤ e := by
  obtain ⟨d, rest, hp, hd, hlen⟩ := cstr_eq_head_append h.left
  rw [hp, occursAt_head_iff hname hd (by omega)] at hocc
  have hlower : (lower (p.take e)).length = e := by rw [lower, List.length_map, hlen]
  have hle := hocc.bound (by omega)
  omega

theorem SameHead.lineInitialMatches (h : SameHead p w e n) {name : Bytes}
    (hname : FieldName name) :
    lineInitialMatches p (name ++ [58]) e 0 = lineInitialMatches w (name ++ [58]) e 0 := by
  rw [lineInitialMatches_zero hname.scan, lineInitialMatches_zero hname.scan]
  exact List.filter_congr fun i hi => h.lineInitial hname (List.mem_range.mp hi)

/-- The framing is read off the head. -/
theorem SameHead.contentLength (h : SameHead p w e n) (maxBodySize : Nat) :
    contentLength p e maxBodySize = contentLength w e maxBodySize := by
  have hte : transferEncodingLines p e = transferEncodingLines w e :=
    h.lineInitialMatches fieldName_transferEncoding
  have hcl : contentLengthLines p e = contentLengthLines w e :=
    h.lineInitialMatches fieldName_contentLength
  simp only [Mnet.contentLength, hte, hcl]
  cases hlast : (contentLengthLines w e).getLast? with
  | none => rfl
  | some i =>
      have hmem : i ∈ (List.range e).filter (Mnet.lineInitial w contentLengthNeedle) := by
        have hrange : contentLengthLines w e =
            (List.range e).filter (Mnet.lineInitial w contentLengthNeedle) :=
          lineInitialMatches_zero fieldName_contentLength.scan _
        rw [← hrange]
        exact List.mem_of_getLast? hlast
      rw [List.mem_filter, List.mem_range] at hmem
      obtain ⟨hi, hw⟩ := hmem
      have hp : Mnet.lineInitial p contentLengthNeedle i = true :=
        (h.lineInitial fieldName_contentLength hi).trans hw
      simp only [Mnet.lineInitial, Bool.and_eq_true, decide_eq_true_eq] at hw hp
      have hline : lineFrom p (i + 15) = lineFrom w (i + 15) := by
        have hle := h.occursAt_le fieldName_contentLength hi hp.1
        have hlen : (ascii "content-length" ++ [58]).length = 15 := by decide
        rw [hlen] at hle
        rw [lineFrom_head h.left hle, lineFrom_head h.right hle, h.head]
      have hvalue : contentLengthValue maxBodySize ((cstr p).drop (i + 15)) =
          contentLengthValue maxBodySize ((cstr w).drop (i + 15)) := by
        rw [(contentLengthValue_at h.left hi hp.1 maxBodySize).1,
          (contentLengthValue_at h.right hi hw.1 maxBodySize).1]
        simp only [lineNumber, hline]
      simp only [hvalue]

end Framing

-- ============================================================================
-- The request line
-- ============================================================================

/-- `sscanf` needs no word from behind the head, or finds none there. -/
def RequestLineFixed (buffer : Bytes) (e : Nat) : Prop :=
  LF ∉ buffer.take e ∨ atMostOneWord (words (buffer.take e)) = false ∨
    words ((cstr buffer).drop e) = []

instance (buffer : Bytes) (e : Nat) : Decidable (RequestLineFixed buffer e) :=
  inferInstanceAs (Decidable (_ ∨ _))

/-- The words of the string are those of the head and those behind it. -/
theorem words_cstr {buffer : Bytes} {e n : Nat} (hend : endOfHeaders buffer = some (e, n)) :
    words (cstr buffer) = words (buffer.take e) ++ words ((cstr buffer).drop e) := by
  obtain ⟨d, rest, hsplit, hbreak, hlen⟩ := cstr_eq_head_append hend
  have hdrop : (cstr buffer).drop e = d :: rest := by
    rw [hsplit, List.drop_left' hlen]
  rw [hdrop]
  conv_lhs => rw [hsplit]
  refine words_append fun b hb => ?_
  obtain rfl : d = b := by simpa using hb
  have hb : d = CR ∨ d = LF := by simpa [isBreak, CRLF] using hbreak
  rcases hb with rfl | rfl
  · decide
  · decide

/-- Enough words fix the result, whatever follows. -/
theorem scanned_append {ws : List Bytes} (h : atMostOneWord ws = false) (more : List Bytes) :
    scanned (ws ++ more) = scanned ws := by
  match ws with
  | [] => simp [atMostOneWord] at h
  | [word] =>
      have hlong : ¬ word.length ≤ 15 := by simpa [atMostOneWord] using h
      simp [scanned, hlong]
  | word :: target :: others => rfl

/-- Otherwise every further word shows. -/
theorem scanned_append_ne {ws more : List Bytes} (h : atMostOneWord ws = true)
    (hne : more ≠ []) (hwords : ∀ word ∈ more, word ≠ []) :
    (scanned (ws ++ more)).2 ≠ (scanned ws).2 := by
  obtain ⟨word, rest, rfl⟩ := List.exists_cons_of_ne_nil hne
  have hword := hwords word (List.mem_cons_self ..)
  match ws with
  | [] =>
      intro heq
      have hfst := congrArg Prod.fst heq
      rw [List.nil_append] at hfst
      by_cases hle : word.length ≤ 15
      · cases rest <;> simp [scanned, hle, hword] at hfst
      · simp [scanned, hle, hword] at hfst
  | [method] =>
      have hle : method.length ≤ 15 := by simpa [atMostOneWord] using h
      intro heq
      have hsnd := congrArg Prod.snd heq
      simp [scanned, hle, hword] at hsnd
  | method :: target :: others => simp [atMostOneWord] at h

/-- The request line of a longer buffer with the same head. -/
theorem SameHead.parseRawRequest {p w : Bytes} {e n : Nat} (h : SameHead p w e n) (hp : p <+: w)
    (hfixed : RequestLineFixed w e) :
    Mnet.parseRawRequest p = Mnet.parseRawRequest w := by
  rw [parseRawRequest_eq h.left, parseRawRequest_eq h.right, words_cstr h.left,
    words_cstr h.right, h.head]
  rcases hfixed with hlf | htwo | hnone
  · rw [if_neg hlf, if_neg hlf]
  · rw [scanned_append htwo, scanned_append htwo]
  · have hnone' : words ((cstr p).drop e) = [] := by
      have hall := Tokens.tokens_eq_nil_iff.mp hnone
      have hpre : (cstr p).drop e <+: (cstr w).drop e := (cstr_isPrefix_cstr hp).drop e
      exact Tokens.tokens_eq_nil_iff.mpr fun b hb => hall b (hpre.subset hb)
    rw [hnone, hnone']

/-- A buffer that ends with the head shows what is missing on the request
    line. -/
theorem SameHead.parseRawRequest_ne {p w : Bytes} {e n : Nat} (h : SameHead p w e n)
    (hshort : words ((cstr p).drop e) = []) (hfixed : ¬ RequestLineFixed w e) :
    (Mnet.parseRawRequest p).2 ≠ (Mnet.parseRawRequest w).2 := by
  simp only [RequestLineFixed, not_or, not_not, Bool.not_eq_false] at hfixed
  obtain ⟨hlf, hone, hmore⟩ := hfixed
  rw [parseRawRequest_eq h.left, parseRawRequest_eq h.right, words_cstr h.left,
    words_cstr h.right, h.head, if_pos hlf, if_pos hlf, hshort, List.append_nil]
  exact (scanned_append_ne hone hmore fun word hword => Tokens.ne_nil_of_mem_tokens hword).symm

end Mnet
