/-
  Mnet.HeaderTokenizer

  What `parse_headers` makes of any header block.

  The fields it returns are those of the block's lines.  The limit of a
  hundred fields is tested on every line before it is known to be a field, so
  a line behind the hundredth field makes the whole block fail even when it
  holds none.
-/

import Mathlib.Data.FinEnum
import Mnet.RequestRoundTrip

namespace Mnet

-- ============================================================================
-- Lines and fields of a block
-- ============================================================================

/-- The lines of a header block: the maximal runs of bytes other than CR and
    LF. -/
def blockLines (block : Bytes) : List Bytes := Tokens.tokens isBreak block

/-- The characters of a token, by RFC 7230. -/
def tokenChars : Bytes :=
  ascii "!#$%&'*+-.^_`|~0123456789ABCDEFGHIJKLMNOPQRSTUVWXYZabcdefghijklmnopqrstuvwxyz"

/-- The field of a line: a non-empty token before its first colon, and the text
    behind it less its leading spaces and tabs. -/
def fieldOf (line : Bytes) : Option (Bytes × Bytes) :=
  let name := line.takeWhile (· ≠ 58)
  if 58 ∈ line ∧ name ≠ [] ∧ ∀ b ∈ name, b ∈ tokenChars then
    some (name, (line.drop (name.length + 1)).dropWhile fun b => b = SP || b = HTAB)
  else none

def blockFields (block : Bytes) : List (Bytes × Bytes) := (blockLines block).filterMap fieldOf

/-- The `n` bytes from `a` on. -/
def byteSpan (a n : Nat) : Bytes := (List.range n).map fun i => UInt8.ofNat (a + i)

theorem contains_byteSpan {a n : Nat} (h : a + n ≤ 256) (b : Byte) :
    (byteSpan a n).contains b = decide (a ≤ b.toNat ∧ b.toNat < a + n) := by
  rw [Bool.eq_iff_iff, List.contains_iff_mem, decide_eq_true_iff, byteSpan, List.mem_map]
  constructor
  · rintro ⟨i, hi, rfl⟩
    rw [List.mem_range] at hi
    rw [UInt8.toNat_ofNat_of_lt' (show a + i < 256 by omega)]
    omega
  · rintro ⟨hlo, hhi⟩
    refine ⟨b.toNat - a, List.mem_range.mpr (by omega), ?_⟩
    rw [Nat.add_sub_cancel' hlo, UInt8.ofNat_toNat]

theorem between_eq (lo hi b : Byte) :
    (lo ≤ b && b ≤ hi) = decide (lo.toNat ≤ b.toNat ∧ b.toNat < hi.toNat + 1) := by
  rw [Bool.eq_iff_iff, decide_eq_true_iff, Bool.and_eq_true, decide_eq_true_iff,
    decide_eq_true_iff, UInt8.le_iff_toNat_le, UInt8.le_iff_toNat_le]
  exact and_congr_right fun _ => Nat.lt_succ_iff.symm

theorem isTokenChar_eq (b : Byte) : isTokenChar b = tokenChars.contains b := by
  have hspans : tokenChars = ascii "!#$%&'*+-.^_`|~" ++
      (byteSpan 48 10 ++ (byteSpan 65 26 ++ byteSpan 97 26)) := by decide +kernel
  rw [isTokenChar, hspans, List.contains_append, List.contains_append, List.contains_append,
    contains_byteSpan (by decide), contains_byteSpan (by decide), contains_byteSpan (by decide)]
  have hdigit : isDigit b = decide (48 ≤ b.toNat ∧ b.toNat < 48 + 10) := between_eq 48 57 b
  have hupper : isUpper b = decide (65 ≤ b.toNat ∧ b.toNat < 65 + 26) := between_eq 65 90 b
  have hlower : isLower b = decide (97 ≤ b.toNat ∧ b.toNat < 97 + 26) := between_eq 97 122 b
  rw [hdigit, hupper, hlower]
  ac_rfl

theorem strtok_eq_blockLines {block : Bytes} (h0 : (0 : Byte) ∉ block) :
    strtok block CRLF = blockLines block := by
  show Tokens.tokens isBreak (cstr block) = _
  rw [cstr_of_noNul h0]
  rfl

theorem noNul_of_mem_blockLines {block line : Bytes} (h0 : (0 : Byte) ∉ block)
    (hline : line ∈ blockLines block) : (0 : Byte) ∉ line := by
  unfold blockLines at hline
  rw [Tokens.tokens_eq_map_starts] at hline
  obtain ⟨i, -, rfl⟩ := List.mem_map.mp hline
  intro hmem
  exact h0 (List.mem_of_mem_drop ((Tokens.runAt_isPrefix _ _ _).subset hmem))

theorem mnetHeaderNameValid_iff {name : Bytes} :
    mnetHeaderNameValid name = true ↔ name ≠ [] ∧ ∀ b ∈ name, b ∈ tokenChars := by
  simp only [mnetHeaderNameValid, Bool.and_eq_true, decide_eq_true_eq, List.all_eq_true,
    isTokenChar_eq, List.contains_iff_mem]

/-- The parser and the block agree on what a field is. -/
theorem headerField_eq_fieldOf {line : Bytes} (h0 : (0 : Byte) ∉ line) :
    headerField line = fieldOf line := by
  have hblank : (fun b : Byte => decide (b = SP) || decide (b = HTAB)) = isBlank := by
    funext b
    simp [isBlank, Bool.beq_eq_decide_eq]
  unfold headerField fieldOf
  rw [hblank]
  cases hchr : strchr line 58 with
  | none =>
      rw [strchr, cstr_of_noNul h0, Search.find_eq_none_iff] at hchr
      have hcolon : (58 : Byte) ∉ line := by
        intro hmem
        obtain ⟨i, hi⟩ := List.mem_iff_getElem?.mp hmem
        have hlt := (List.getElem?_eq_some_iff.mp hi).1
        exact hchr i (Nat.le_of_lt hlt) (occursAt_singleton.mpr hi)
      simp [hcolon]
  | some colon =>
      rw [strchr, cstr_of_noNul h0, Search.find_eq_some_iff] at hchr
      obtain ⟨-, hocc, hbefore⟩ := hchr
      obtain ⟨hlt, hget⟩ := List.getElem?_eq_some_iff.mp (occursAt_singleton.mp hocc)
      have hsplit : line = line.take colon ++ 58 :: line.drop (colon + 1) := by
        rw [← hget, List.cons_getElem_drop_succ, List.take_append_drop]
      have hclean : ∀ b ∈ line.take colon, decide (b ≠ 58) = true := by
        intro b hb
        obtain ⟨i, hi⟩ := List.mem_iff_getElem?.mp hb
        have hlen := (List.getElem?_eq_some_iff.mp hi).1
        rw [List.length_take] at hlen
        rw [List.getElem?_take_of_lt (by omega)] at hi
        have hne : b ≠ 58 := fun h => hbefore i (by omega) (occursAt_singleton.mpr (h ▸ hi))
        exact decide_eq_true hne
      have hname : line.takeWhile (· ≠ 58) = line.take colon := by
        conv_lhs => rw [hsplit]
        rw [List.takeWhile_append_of_pos hclean, List.takeWhile_cons_of_neg (by simp),
          List.append_nil]
      have hmem : (58 : Byte) ∈ line := by
        rw [← hget]
        exact List.getElem_mem hlt
      have hlen : (line.take colon).length = colon := by
        rw [List.length_take]
        omega
      simp only [hname, hmem, true_and, hlen, mnetHeaderNameValid_iff]

theorem filterMap_headerField {block : Bytes} (h0 : (0 : Byte) ∉ block) :
    (blockLines block).filterMap headerField = blockFields block :=
  List.filterMap_congr fun _ hline => headerField_eq_fieldOf (noNul_of_mem_blockLines h0 hline)

-- ============================================================================
-- When the parser fails
-- ============================================================================

/-- The loop fails on a line that is too long, and on any line behind the
    hundredth field.  The last line has the most fields before it. -/
theorem parseHeaderLines_eq_none_iff (lines : List Bytes) (fields : List (Bytes × Bytes)) :
    parseHeaderLines lines fields = none ↔
      (∃ line ∈ lines, MNET_MAX_HEADER_LINE ≤ line.length) ∨
        (lines ≠ [] ∧
          MNET_MAX_HEADERS ≤ fields.length + (lines.dropLast.filterMap headerField).length) := by
  induction lines generalizing fields with
  | nil => simp [parseHeaderLines]
  | cons line lines ih =>
      rw [parseHeaderLines]
      by_cases hcap : fields.length ≥ MNET_MAX_HEADERS
      · rw [if_pos hcap]
        exact iff_of_true rfl (.inr ⟨List.cons_ne_nil _ _, Nat.le_add_right_of_le hcap⟩)
      rw [if_neg hcap]
      by_cases hlong : line.length ≥ MNET_MAX_HEADER_LINE
      · rw [if_pos hlong]
        exact iff_of_true rfl (.inl ⟨line, List.mem_cons_self .., hlong⟩)
      rw [if_neg hlong]
      -- the fields before the last line, counted on behind this one
      have hstep : ∀ more : List (Bytes × Bytes),
          (lines ≠ [] → ((line :: lines).dropLast.filterMap headerField).length =
            more.length + (lines.dropLast.filterMap headerField).length) →
          (parseHeaderLines lines (fields ++ more) = none ↔
            (∃ l ∈ line :: lines, MNET_MAX_HEADER_LINE ≤ l.length) ∨
              (line :: lines ≠ [] ∧ MNET_MAX_HEADERS ≤
                fields.length + ((line :: lines).dropLast.filterMap headerField).length)) := by
        intro more hmore
        rw [ih, List.exists_mem_cons_iff, or_iff_right hlong, List.length_append, Nat.add_assoc]
        apply or_congr_right
        by_cases hnil : lines = []
        · subst hnil
          simpa using hcap
        · rw [hmore hnil]
          simp [hnil]
      cases hfield : headerField line with
      | none =>
          have h := hstep [] fun hne => by
            rw [List.dropLast_cons_of_ne_nil hne, List.filterMap_cons_none hfield]
            simp
          rwa [List.append_nil] at h
      | some field =>
          apply hstep [field]
          intro hne
          rw [List.dropLast_cons_of_ne_nil hne, List.filterMap_cons_some hfield]
          simp [Nat.add_comm]

/-- A list has at most one field more than it has before its last line. -/
theorem length_filterMap_dropLast {lines : List Bytes} {last : Bytes}
    (hlast : lines.getLast? = some last) :
    (lines.filterMap fieldOf).length =
      (lines.dropLast.filterMap fieldOf).length + if (fieldOf last).isSome then 1 else 0 := by
  have hsplit : lines = lines.dropLast ++ [last] := (List.dropLast_append_getLast? last hlast).symm
  conv_lhs => rw [hsplit]
  cases hfield : fieldOf last with
  | none => simp [hfield]
  | some field => simp [hfield]

-- ============================================================================
-- The exact tokenizer
-- ============================================================================

/-- `parse_headers` fails on a line of 4096 bytes or more and on more than 100
    fields, and returns the fields of the block otherwise; the lines that hold
    none, if they are not too long, might as well be missing. -/
structure TokenizerExact (block : Bytes) : Prop where
  outcome : parseHeaders block =
    if (∃ line ∈ blockLines block, 4096 ≤ line.length) ∨ 100 < (blockFields block).length then none
    else some (blockFields block)
  skipped : (∀ line ∈ blockLines block, fieldOf line = none → line.length < 4096) →
    parseHeaders block =
      parseHeaderLines ((blockLines block).filter fun line => (fieldOf line).isSome) []

/-- Exactly 100 fields in lines of less than 4096 bytes, and a last line that
    holds none of them. -/
def LineBehindLastField (block : Bytes) : Prop :=
  (blockFields block).length = 100 ∧ (∀ line ∈ blockLines block, line.length < 4096) ∧
    ∃ last ∈ (blockLines block).getLast?, fieldOf last = none

/-- The two limits the parser fails on, over the fields of the block. -/
theorem parseHeaders_eq_none_iff {block : Bytes} (h0 : (0 : Byte) ∉ block) :
    parseHeaders block = none ↔
      (∃ line ∈ blockLines block, 4096 ≤ line.length) ∨ 100 < (blockFields block).length ∨
        LineBehindLastField block := by
  have hfields : ∀ lines, lines ⊆ blockLines block →
      lines.filterMap headerField = lines.filterMap fieldOf := fun lines hsub =>
    List.filterMap_congr fun _ hline =>
      headerField_eq_fieldOf (noNul_of_mem_blockLines h0 (hsub hline))
  rw [parseHeaders, strtok_eq_blockLines h0, parseHeaderLines_eq_none_iff,
    hfields _ (List.dropLast_sublist _).subset, List.length_nil, Nat.zero_add]
  show (∃ line ∈ blockLines block, 4096 ≤ line.length) ∨ _ ↔ _
  by_cases hlong : ∃ line ∈ blockLines block, 4096 ≤ line.length
  · simp only [hlong, true_or]
  have hshort : ∀ line ∈ blockLines block, line.length < 4096 := fun line hline =>
    Nat.lt_of_not_le fun hle => hlong ⟨line, hline, hle⟩
  simp only [hlong, false_or, LineBehindLastField, blockFields]
  cases hlast : (blockLines block).getLast? with
  | none =>
      rw [List.getLast?_eq_none_iff] at hlast
      simp [hlast]
  | some last =>
      have hne : blockLines block ≠ [] := by
        rintro hnil
        simp [hnil] at hlast
      have hlen := length_filterMap_dropLast hlast
      simp only [hne, ne_eq, not_false_eq_true, true_and, Option.mem_some_iff, exists_eq_left',
        MNET_MAX_HEADERS]
      rw [hlen]
      cases hfield : fieldOf last with
      | none =>
          simp only [Option.isSome_none, Bool.false_eq_true, if_false, and_true]
          constructor
          · intro h
            by_cases heq : ((blockLines block).dropLast.filterMap fieldOf).length = 100
            · exact .inr ⟨heq, hshort⟩
            · exact .inl (by omega)
          · rintro (h | ⟨h, -⟩)
            · omega
            · omega
      | some field =>
          simp only [Option.isSome_some, if_true, reduceCtorEq, and_false, or_false]
          omega

/-- Where every line holds a field, the parser fails on a long line and on more
    than a hundred lines only. -/
theorem parseHeaderLines_of_fields {lines : List Bytes}
    (hfields : ∀ line ∈ lines, (headerField line).isSome = true) :
    parseHeaderLines lines [] =
      if (∃ line ∈ lines, 4096 ≤ line.length) ∨ 100 < lines.length then none
      else some (lines.filterMap headerField) := by
  have hlen : ∀ {ls : List Bytes}, ls ⊆ lines → (ls.filterMap headerField).length = ls.length := by
    intro ls hsub
    rw [List.length_filterMap_eq_countP, List.countP_eq_length]
    exact fun line hline => hfields line (hsub hline)
  have hcap : (lines ≠ [] ∧ 100 ≤ (lines.dropLast.filterMap headerField).length) ↔
      100 < lines.length := by
    rw [hlen (List.dropLast_sublist _).subset, List.length_dropLast, ← List.length_pos_iff]
    omega
  have hiff := parseHeaderLines_eq_none_iff lines []
  rw [List.length_nil, Nat.zero_add] at hiff
  split
  · next hfails => exact hiff.mpr (hfails.imp_right hcap.mpr)
  · next hok =>
    cases hparse : parseHeaderLines lines [] with
    | none => exact absurd ((hiff.mp hparse).imp_right hcap.mp) hok
    | some fields =>
        have heq := parseHeaderLines_eq_some hparse
        rw [heq, List.nil_append]

/-- The lines that hold no field might be missing, if none of them is too
    long. -/
theorem parseHeaderLines_filter {block : Bytes} (h0 : (0 : Byte) ∉ block)
    (hshort : ∀ line ∈ blockLines block, fieldOf line = none → line.length < 4096) :
    parseHeaderLines ((blockLines block).filter fun line => (fieldOf line).isSome) [] =
      if (∃ line ∈ blockLines block, 4096 ≤ line.length) ∨ 100 < (blockFields block).length then none
      else some (blockFields block) := by
  have hfield : ∀ line ∈ blockLines block, headerField line = fieldOf line := fun line hline =>
    headerField_eq_fieldOf (noNul_of_mem_blockLines h0 hline)
  have hlong : (∃ line ∈ (blockLines block).filter fun line => (fieldOf line).isSome,
      4096 ≤ line.length) ↔ ∃ line ∈ blockLines block, 4096 ≤ line.length := by
    constructor
    · rintro ⟨line, hline, hlen⟩
      exact ⟨line, (List.mem_filter.mp hline).1, hlen⟩
    · rintro ⟨line, hline, hlen⟩
      refine ⟨line, List.mem_filter.mpr ⟨hline, ?_⟩, hlen⟩
      by_contra hnone
      have hlt := hshort line hline (by simpa using hnone)
      omega
  have hkept : ((blockLines block).filter fun line => (fieldOf line).isSome).filterMap headerField =
      blockFields block := by
    rw [List.filterMap_filter, blockFields]
    apply List.filterMap_congr
    intro line hline
    rw [hfield line hline]
    cases fieldOf line <;> rfl
  have hcount : ((blockLines block).filter fun line => (fieldOf line).isSome).length =
      (blockFields block).length := by
    rw [blockFields, List.length_filterMap_eq_countP, List.countP_eq_length_filter]
  have hfields : ∀ line ∈ (blockLines block).filter fun line => (fieldOf line).isSome,
      (headerField line).isSome = true := by
    intro line hline
    obtain ⟨hmem, hsome⟩ := List.mem_filter.mp hline
    rw [hfield line hmem]
    exact hsome
  rw [parseHeaderLines_of_fields hfields, hkept, hcount]
  simp only [hlong]

/-- Behind a hundred fields a line that holds none fails the block, which keeps
    both limits. -/
theorem not_tokenizerExact_of_behind {block : Bytes} (h0 : (0 : Byte) ∉ block)
    (hbehind : LineBehindLastField block) : ¬ TokenizerExact block := by
  rintro ⟨houtcome, -⟩
  rw [(parseHeaders_eq_none_iff h0).mpr (.inr (.inr hbehind)), if_neg] at houtcome
  · exact absurd houtcome (by simp)
  · obtain ⟨hcount, hshort, -⟩ := hbehind
    rintro (⟨line, hline, hlen⟩ | hmore)
    · exact absurd (hshort line hline) (by omega)
    · omega

/-- The tokenizer is exact except on a block whose hundred fields are followed
    by a line that holds none. -/
theorem tokenizerExact_iff {block : Bytes} (h0 : (0 : Byte) ∉ block) :
    TokenizerExact block ↔ ¬ LineBehindLastField block := by
  have hnone := parseHeaders_eq_none_iff h0
  constructor
  · exact fun hexact hbehind => not_tokenizerExact_of_behind h0 hbehind hexact
  · intro hbehind
    have houtcome : parseHeaders block =
        if (∃ line ∈ blockLines block, 4096 ≤ line.length) ∨ 100 < (blockFields block).length
        then none else some (blockFields block) := by
      split
      · next hfails => exact hnone.mpr (hfails.imp_right .inl)
      · next hok =>
        cases hparse : parseHeaders block with
        | none =>
            obtain h | h | h := hnone.mp hparse
            · exact absurd (.inl h) hok
            · exact absurd (.inr h) hok
            · exact absurd h hbehind
        | some fields =>
            have heq := parseHeaderLines_eq_some hparse
            rw [strtok_eq_blockLines h0, filterMap_headerField h0, List.nil_append] at heq
            rw [heq]
    exact ⟨houtcome, fun hshort => houtcome.trans (parseHeaderLines_filter h0 hshort).symm⟩

/-- A request line and one field. -/
def oneFieldBlock : Bytes := ascii "GET / HTTP/1.1
Host: x"

theorem tokenizerExact_oneFieldBlock : TokenizerExact oneFieldBlock :=
  (tokenizerExact_iff (by decide)).mpr fun h => absurd h.1 (by decide +kernel)

/-- A hundred fields and a line without a colon. -/
def hundredAndOneLines : List Bytes := List.replicate 100 (ascii "a:") ++ [ascii "b"]

theorem blockLines_hundredAndOneLines :
    blockLines ([LF].intercalate hundredAndOneLines) = hundredAndOneLines :=
  Tokens.tokens_intercalate (by decide) (by decide +kernel)

/-- A block of exactly a hundred fields is refused for the line behind them,
    which would have been skipped. -/
theorem not_tokenizerExact : ¬ ∀ block : Bytes, (0 : Byte) ∉ block → TokenizerExact block := by
  intro h
  have h0 : (0 : Byte) ∉ [LF].intercalate hundredAndOneLines := by decide +kernel
  apply not_tokenizerExact_of_behind h0 ?_ (h _ h0)
  rw [LineBehindLastField, blockFields, blockLines_hundredAndOneLines]
  decide +kernel

end Mnet
