/-
  Mnet.JsonEscaping

  `mnet_json_escape` with a block of any size.

  With six bytes for each of the string the output is the inside of a JSON
  string literal that reads as the string.  In a smaller block the loop passes
  over an escape that does not fit and goes on, so that shorter ones behind it
  are still stored.
-/

import Mnet.JsonfParts
import Mnet.Lib.Fitting
import Mnet.Lib.JsonString

namespace Mnet

-- ============================================================================
-- Blocks that are too small
-- ============================================================================

/-- The output, with its NUL, fits the block and is the escape of a prefix of
    the string: the longest whose escape fits. -/
structure EscapesPrefix (outSize : Nat) (s : Bytes) : Prop where
  room : (mnetJsonEscape outSize (some s)).length < outSize
  whole : ∃ p, Fitting.Longest jsonEscapeByte (outSize - 1) s p ∧
    mnetJsonEscape outSize (some s) = p.flatMap jsonEscapeByte

/-- Where the escape of a byte is too long for the room that is left, so is that
    of every byte behind it. -/
def NothingElseFits (room : Nat) (s : Bytes) : Prop :=
  ∀ before b after, s = before ++ b :: after → (before.flatMap jsonEscapeByte).length < room →
    room < ((before ++ [b]).flatMap jsonEscapeByte).length →
    ∀ c ∈ after, room < ((before ++ [c]).flatMap jsonEscapeByte).length

/-- A prefix whose escape fits is stored. -/
theorem jsonEscapeLoop_append {outSize : Nat} {p out : Bytes}
    (h : out.length + (p.flatMap jsonEscapeByte).length ≤ outSize - 1) (rest : Bytes) :
    jsonEscapeLoop outSize (p ++ rest) out =
      jsonEscapeLoop outSize rest (out ++ p.flatMap jsonEscapeByte) := by
  induction p generalizing out with
  | nil => rw [List.flatMap_nil, List.append_nil, List.nil_append]
  | cons b p ih =>
      have hpos := jsonEscapeByte_length_pos b
      rw [List.flatMap_cons, List.length_append] at h
      rw [List.cons_append, jsonEscapeLoop, if_pos (by omega), if_pos (by omega), ih,
        List.flatMap_cons, List.append_assoc]
      rw [List.length_append]
      omega

theorem isPrefix_jsonEscapeLoop (outSize : Nat) (s out : Bytes) :
    out <+: jsonEscapeLoop outSize s out := by
  induction s generalizing out with
  | nil => exact List.prefix_refl out
  | cons b s ih =>
      rw [jsonEscapeLoop]
      split
      · split
        · exact (List.prefix_append _ _).trans (ih _)
        · exact ih out
      · exact List.prefix_refl out

theorem length_jsonEscapeLoop_le {outSize : Nat} (s : Bytes) {out : Bytes}
    (h : out.length ≤ outSize - 1) : (jsonEscapeLoop outSize s out).length ≤ outSize - 1 := by
  induction s generalizing out with
  | nil => exact h
  | cons b s ih =>
      rw [jsonEscapeLoop]
      split
      · split
        · next hfits => exact ih (by rw [List.length_append]; exact hfits)
        · exact ih h
      · exact h

/-- Nothing more is stored exactly when the block is full or no escape fits
    what is left of it. -/
theorem jsonEscapeLoop_eq_self_iff {outSize : Nat} {s out : Bytes} :
    jsonEscapeLoop outSize s out = out ↔
      outSize - 1 ≤ out.length ∨ ∀ c ∈ s, outSize - 1 < out.length + (jsonEscapeByte c).length := by
  induction s with
  | nil => exact iff_of_true rfl (.inr (by simp))
  | cons b s ih =>
      have hpos := jsonEscapeByte_length_pos b
      rw [jsonEscapeLoop]
      by_cases hroom : out.length < outSize - 1
      · rw [if_pos hroom]
        by_cases hfits : out.length + (jsonEscapeByte b).length ≤ outSize - 1
        · rw [if_pos hfits]
          refine iff_of_false (fun heq => ?_) ?_
          · have hle := (isPrefix_jsonEscapeLoop outSize s (out ++ jsonEscapeByte b)).length_le
            rw [heq, List.length_append] at hle
            omega
          · rintro (hfull | hnone)
            · omega
            · have hb := hnone b (List.mem_cons_self ..)
              omega
        · rw [if_neg hfits, ih, List.forall_mem_cons]
          exact or_congr_right ⟨fun h => ⟨by omega, h⟩, fun h => h.2⟩
      · rw [if_neg hroom]
        exact iff_of_true rfl (.inl (Nat.not_lt.mp hroom))

/-- The output is the escape of the longest prefix that fits exactly when
    nothing behind the first byte that is left out fits. -/
theorem escapesPrefix_iff (room : Nat) (s : Bytes) :
    EscapesPrefix (room + 1) s ↔ NothingElseFits room s := by
  have hout : mnetJsonEscape (room + 1) (some s) = jsonEscapeLoop (room + 1) s [] := by
    rw [mnetJsonEscape, if_neg (Nat.succ_ne_zero room), Option.getD_some]
  have hlen : (jsonEscapeLoop (room + 1) s []).length < room + 1 :=
    Nat.lt_succ_of_le (length_jsonEscapeLoop_le s (Nat.zero_le _))
  by_cases hall : (s.flatMap jsonEscapeByte).length ≤ room
  · have hwhole : jsonEscapeLoop (room + 1) s [] = s.flatMap jsonEscapeByte := by
      have h := @jsonEscapeLoop_append (room + 1) s []
        (by simpa using hall) []
      rwa [List.append_nil, List.nil_append] at h
    refine iff_of_true ⟨hout ▸ hlen, s, Fitting.longest_self hall, hout.trans hwhole⟩ ?_
    rintro before b after rfl - hexceeds
    have hpre : before ++ [b] <+: before ++ b :: after := ⟨after, (List.append_cons ..).symm⟩
    have hle := (Fitting.flatMap_isPrefix (f := jsonEscapeByte) hpre).length_le
    omega
  · obtain ⟨before, b, hnext⟩ := Fitting.exists_next (Nat.not_le.mp hall)
    have hlongest := hnext.longest
    obtain ⟨after, hafter⟩ := hnext.isPrefix
    have hs : s = before ++ b :: after := by rw [← hafter, ← List.append_cons]
    have hloop : jsonEscapeLoop (room + 1) s [] =
        jsonEscapeLoop (room + 1) (b :: after) (before.flatMap jsonEscapeByte) := by
      have h := @jsonEscapeLoop_append (room + 1) before []
        (by simpa using hnext.fits) (b :: after)
      rwa [List.nil_append, ← hs] at h
    have hone : ∀ c, ((before ++ [c]).flatMap jsonEscapeByte).length =
        (before.flatMap jsonEscapeByte).length + (jsonEscapeByte c).length := by
      intro c
      rw [List.flatMap_append, List.length_append, List.flatMap_singleton]
    have hexceeds := hnext.exceeds
    constructor
    · rintro ⟨-, p, hp, heq⟩ before' b' after' hs' hroom' hexceeds' c hc
      -- the byte left out is the first that does not fit
      have hnext' : Fitting.Next jsonEscapeByte room s before' b' :=
        ⟨⟨after', by rw [hs', ← List.append_cons]⟩, Nat.le_of_lt hroom', hexceeds'⟩
      obtain ⟨rfl, rfl⟩ := hnext.unique hnext'
      obtain rfl := hp.unique hlongest
      rw [hout, hloop, jsonEscapeLoop_eq_self_iff, Nat.add_sub_cancel] at heq
      obtain rfl : after = after' := by
        rw [hs] at hs'
        exact (List.cons.inj (List.append_cancel_left hs')).2
      rw [hone]
      rcases heq with hfull | hnone
      · omega
      · exact hnone c (List.mem_cons_of_mem _ hc)
    · intro hnone
      refine ⟨hout ▸ hlen, before, hlongest, ?_⟩
      rw [hout, hloop, jsonEscapeLoop_eq_self_iff, Nat.add_sub_cancel]
      by_cases hroom : (before.flatMap jsonEscapeByte).length < room
      · refine .inr (List.forall_mem_cons.mpr ⟨by rwa [← hone], fun c hc => ?_⟩)
        rw [← hone]
        exact hnone before b after hs hroom hexceeds c hc
      · exact .inl (Nat.not_lt.mp hroom)

/-- A quote does not fit a block of two bytes, and the letter behind it is
    stored. -/
theorem not_escapesPrefix : ¬ EscapesPrefix 2 (ascii "\"a") := by
  rintro ⟨-, p, hp, heq⟩
  have hout : mnetJsonEscape 2 (some (ascii "\"a")) = ascii "a" := by decide
  have hnil : Fitting.Longest jsonEscapeByte 1 (ascii "\"a") [] := by
    apply Fitting.Next.longest (a := 34)
    exact ⟨⟨ascii "a", by decide⟩, by decide, by decide⟩
  obtain rfl := hp.unique hnil
  rw [hout] at heq
  exact absurd heq (by decide)

-- ============================================================================
-- Blocks that are large enough
-- ============================================================================

theorem unicodeEscape_spells {b : Byte} (h : b < 0x20) :
    JsonString.Spells (unicodeEscape b.toNat) [b] := by
  have hall : ∀ n < 32, ∃ hi < 16, ∃ lo < 16, unicodeEscape n =
      [92, 117, 48, 48, (Nat.digitChar hi).toUInt8, (Nat.digitChar lo).toUInt8] ∧
      Percent.hexDigit? (Nat.digitChar hi).toUInt8 = some hi ∧
      Percent.hexDigit? (Nat.digitChar lo).toUInt8 = some lo ∧
      hi * 16 + lo = n ∧ JsonString.codePoint n = [UInt8.ofNat n] := by decide +kernel
  obtain ⟨hi, hhi, lo, hlo, htext, hhi', hlo', hval, hpoint⟩ := hall b.toNat h
  have hzero : Percent.hexDigit? 48 = some 0 := by decide
  rw [htext]
  have hspells := JsonString.spells_unit hzero hzero hhi' hlo' (by omega)
  have hunit : ((0 * 16 + 0) * 16 + hi) * 16 + lo = b.toNat := by omega
  rwa [hunit, hpoint, UInt8.ofNat_toNat] at hspells

/-- The escape of a byte is one character of a literal, which stands for the
    byte. -/
theorem jsonEscapeByte_spells (b : Byte) : JsonString.Spells (jsonEscapeByte b) [b] := by
  rw [jsonEscapeByte]
  split
  · next h => exact h ▸ JsonString.spells_simple (by decide)
  split
  · next h => exact h ▸ JsonString.spells_simple (by decide)
  split
  · next h => exact h ▸ JsonString.spells_simple (by decide)
  split
  · next h => exact h ▸ JsonString.spells_simple (by decide)
  split
  · next h => exact h ▸ JsonString.spells_simple (by decide)
  split
  · next h => exact unicodeEscape_spells h
  · next hquote hback _ _ _ hcontrol => exact JsonString.spells_raw hback hquote hcontrol

theorem le_of_mem_jsonEscapeByte {b c : Byte} (h : c ∈ jsonEscapeByte b) : 0x20 ≤ c := by
  have hall : ∀ b : Byte, (jsonEscapeByte b).all (0x20 ≤ ·) = true := by
    apply forall_byte
    decide +kernel
  exact of_decide_eq_true (List.all_eq_true.mp (hall b) c h)

/-- Behind an escape the quotes are those of the text that follows. -/
theorem hasBareQuote_append (b : Byte) (rest : Bytes) :
    JsonString.hasBareQuote (jsonEscapeByte b ++ rest) = JsonString.hasBareQuote rest := by
  have hraw : ∀ (c : Byte) (text : Bytes), c ≠ 92 → c ≠ 34 →
      JsonString.hasBareQuote (c :: text) = JsonString.hasBareQuote text := by
    intro c text hback hquote
    cases text with
    | nil => exact beq_false_of_ne hquote
    | cons d text =>
        rw [JsonString.hasBareQuote, if_neg hback, beq_false_of_ne hquote, Bool.false_or]
  rw [jsonEscapeByte]
  split
  · rfl
  split
  · rfl
  split
  · rfl
  split
  · rfl
  split
  · rfl
  split
  · next h =>
    have hall : ∀ n < 32, ∃ tail, unicodeEscape n = 92 :: 117 :: tail ∧ tail.length = 4 ∧
        (tail.all fun c => decide (c ≠ 92 ∧ c ≠ 34)) = true := by
      intro n hn
      refine ⟨(unicodeEscape n).drop 2, ?_⟩
      revert n
      decide +kernel
    obtain ⟨tail, htext, -, hplain⟩ := hall b.toNat h
    rw [htext]
    show JsonString.hasBareQuote (tail ++ rest) = _
    clear htext
    induction tail with
    | nil => rfl
    | cons c tail ih =>
        obtain ⟨hc, htail⟩ := List.forall_mem_cons.mp (List.all_eq_true.mp hplain)
        obtain ⟨hback, hquote⟩ := of_decide_eq_true hc
        rw [List.cons_append, hraw c _ hback hquote]
        exact ih (List.all_eq_true.mpr htail)
  · next hquote hback _ _ _ _ =>
    rw [List.singleton_append]
    exact hraw b rest hback hquote

theorem hasBareQuote_flatMap (s : Bytes) :
    JsonString.hasBareQuote (s.flatMap jsonEscapeByte) = false := by
  induction s with
  | nil => rfl
  | cons b s ih => rw [List.flatMap_cons, hasBareQuote_append, ih]

/-- With six bytes for each of the string, the output has no control character
    and no quote outside an escape; read as the inside of a literal it ends
    where the literal does and stands for the string. -/
theorem mnetJsonEscape_reversible (s : Bytes) (extra : Nat) :
    let out := mnetJsonEscape (6 * s.length + 1 + extra) (some s)
    (∀ b ∈ out, 0x20 ≤ b) ∧ JsonString.hasBareQuote out = false ∧
      JsonString.decode out = some s ∧
      ∀ behind, JsonString.read (out ++ 34 :: behind) = some (s, behind) := by
  have hout : mnetJsonEscape (6 * s.length + 1 + extra) (some s) = s.flatMap jsonEscapeByte := by
    rw [mnetJsonEscape, if_neg (by omega), Option.getD_some, jsonEscapeLoop_eq]
    · exact List.nil_append _
    · simp only [List.length_nil]
      omega
  rw [hout]
  refine ⟨fun c hc => ?_, hasBareQuote_flatMap s, JsonString.decode_flatMap jsonEscapeByte_spells s,
    JsonString.read_flatMap jsonEscapeByte_spells s⟩
  obtain ⟨b, -, hb⟩ := List.mem_flatMap.mp hc
  exact le_of_mem_jsonEscapeByte hb

end Mnet
