/-
  Mnet.LengthLimit

  The number of a Content-Length line against the limit on the body.

  `read_full_body` reads the digits in `size_t` arithmetic and looks for the
  limit twice at each: before the digit is taken in, at a tenth of it, and
  after.  A number that wraps between the two looks can go unseen, which takes
  a limit of `2 ^ 64 - 6` or more.
-/

import Mathlib.Data.List.Infix
import Mnet.FramingAgreement

namespace Mnet

-- ============================================================================
-- Heads that declare a length
-- ============================================================================

/-- The text `read_full_body` reads as the number of the line at offset `i`. -/
def lineDigits (buffer : Bytes) (i : Nat) : Bytes :=
  (lineFrom buffer (i + 15)).dropWhile isBlank

/-- A head with one Content-Length line, at offset `i`, which holds the decimal
    number `n`, and without a Transfer-Encoding line. -/
structure DeclaresLength (buffer : Bytes) (headerEnd sepLen i n : Nat) : Prop where
  head : endOfHeaders buffer = some (headerEnd, sepLen)
  lengths : contentLengthLines buffer headerEnd = [i]
  codings : transferEncodingLines buffer headerEnd = []
  number : lineNumber buffer i = some n

/-- In `size_t` arithmetic some of the digits, but not all, stand for more than
    a tenth of the limit, or all of them for more than the limit. -/
def SeenOver (maxBodySize : Nat) (digits : Bytes) : Prop :=
  (∃ p ∈ digits.inits, p ≠ digits ∧ maxBodySize / 10 < decimalFrom 0 p % SIZE_T) ∨
    maxBodySize < decimalFrom 0 digits % SIZE_T

instance (maxBodySize : Nat) (digits : Bytes) : Decidable (SeenOver maxBodySize digits) :=
  inferInstanceAs (Decidable (_ ∨ _))

-- ============================================================================
-- The digit loop
-- ============================================================================

theorem decimalFrom_append (n : Nat) (digits : Bytes) (d : Byte) :
    decimalFrom n (digits ++ [d]) = decimalFrom n digits * 10 + digitVal d := by
  simp only [decimalFrom, List.foldl_append, List.foldl_cons, List.foldl_nil]

/-- One digit more: what was seen before, or the number before it, or the whole
    number. -/
theorem seenOver_append (maxBodySize : Nat) (digits : Bytes) (d : Byte) :
    SeenOver maxBodySize (digits ++ [d]) ↔
      SeenOver maxBodySize digits ∨ maxBodySize / 10 < decimalFrom 0 digits % SIZE_T ∨
        maxBodySize < decimalFrom 0 (digits ++ [d]) % SIZE_T := by
  have hne : ∀ p, p <+: digits → p ≠ digits ++ [d] := by
    intro p hp heq
    have hlen := hp.length_le
    rw [heq, List.length_append, List.length_singleton] at hlen
    omega
  constructor
  · rintro (⟨p, hp, hproper, hover⟩ | hover)
    · rw [List.mem_inits, List.prefix_concat_iff] at hp
      have hp' := hp.resolve_left hproper
      by_cases heq : p = digits
      · exact .inr (.inl (heq ▸ hover))
      · exact .inl (.inl ⟨p, (List.mem_inits p digits).mpr hp', heq, hover⟩)
    · exact .inr (.inr hover)
  · rintro ((⟨p, hp, -, hover⟩ | hover) | hover | hover)
    · rw [List.mem_inits] at hp
      exact .inl ⟨p, (List.mem_inits ..).mpr (List.prefix_concat_iff.mpr (.inr hp)), hne p hp,
        hover⟩
    · refine .inl ⟨digits, (List.mem_inits ..).mpr (List.prefix_append ..),
        hne digits List.prefix_rfl, ?_⟩
      have hle := Nat.div_le_self maxBodySize 10
      omega
    · exact .inl ⟨digits, (List.mem_inits ..).mpr (List.prefix_append ..),
        hne digits List.prefix_rfl, hover⟩
    · exact .inr hover

/-- The flag of the digit loop. -/
theorem foldl_scanDigit_overflow_iff (maxBodySize : Nat) (digits : Bytes) :
    (digits.foldl (scanDigit maxBodySize) {}).overflow = true ↔ SeenOver maxBodySize digits := by
  induction digits using List.reverseRecOn with
  | nil => simp [SeenOver, decimalFrom]
  | append_singleton digits d ih =>
      have hparsed : (digits.foldl (scanDigit maxBodySize) {}).parsed =
          decimalFrom 0 digits % SIZE_T := foldl_scanDigit_parsed maxBodySize digits rfl
      have hnext : ((digits ++ [d]).foldl (scanDigit maxBodySize) {}).parsed =
          decimalFrom 0 (digits ++ [d]) % SIZE_T :=
        foldl_scanDigit_parsed maxBodySize (digits ++ [d]) rfl
      rw [seenOver_append, ← ih, ← hparsed, ← hnext, List.foldl_append, List.foldl_cons,
        List.foldl_nil]
      simp only [scanDigit, Bool.or_eq_true, decide_eq_true_eq, gt_iff_lt, or_assoc]

/-- A number within the limit is never seen over it. -/
theorem not_seenOver_of_le {maxBodySize : Nat} {digits : Bytes} (hmax : maxBodySize < SIZE_T)
    (h : decimalFrom 0 digits ≤ maxBodySize) : ¬ SeenOver maxBodySize digits := by
  rw [← foldl_scanDigit_overflow_iff, foldl_scanDigit_overflow rfl h (Nat.lt_of_le_of_lt h hmax)]
  exact Bool.false_ne_true

/-- Under a limit of `2 ^ 64 - 7` or less a number over it is always seen: what
    is left of a tenth cannot wrap. -/
theorem seenOver_of_lt {maxBodySize : Nat} {digits : Bytes} (hmax : maxBodySize + 6 < SIZE_T)
    (hdigits : ∀ d ∈ digits, isDigit d = true) (h : maxBodySize < decimalFrom 0 digits) :
    SeenOver maxBodySize digits := by
  induction digits using List.reverseRecOn with
  | nil => exact absurd h (Nat.not_lt_zero _)
  | append_singleton digits d ih =>
      rw [seenOver_append]
      by_contra hunseen
      obtain ⟨hbefore, htenth, hwhole⟩ := by simpa only [not_or, not_lt] using hunseen
      have hle : decimalFrom 0 digits ≤ maxBodySize := by
        by_contra hgt
        exact hbefore (ih (fun c hc => hdigits c (List.mem_append_left _ hc)) (by omega))
      have hd : digitVal d ≤ 9 := by
        have hdigit := hdigits d (List.mem_append_right _ (List.mem_singleton.mpr rfl))
        simp only [isDigit, Bool.and_eq_true, decide_eq_true_eq, UInt8.le_iff_toNat_le] at hdigit
        have hnine : d.toNat ≤ 57 := hdigit.2
        rw [digitVal]
        omega
      rw [decimalFrom_append] at h hwhole
      rw [Nat.mod_eq_of_lt (by omega)] at htenth
      have hsize : SIZE_T = 18446744073709551616 := rfl
      rw [hsize] at hmax hwhole
      omega

-- ============================================================================
-- The framing
-- ============================================================================

section

variable {buffer : Bytes} {headerEnd sepLen i n : Nat}

theorem decimalFrom_lineDigits (hnumber : lineNumber buffer i = some n) :
    decimalFrom 0 (lineDigits buffer i) = n ∧ ∀ d ∈ lineDigits buffer i, isDigit d = true := by
  have hvalue : decimalValue (lineDigits buffer i) = some n := hnumber
  unfold decimalValue at hvalue
  split at hvalue
  · next h => exact ⟨Option.some.inj hvalue, List.all_eq_true.mp h.2⟩
  · simp at hvalue

/-- What `read_full_body` makes of a declared length. -/
theorem DeclaresLength.contentLength (h : DeclaresLength buffer headerEnd sepLen i n)
    (maxBodySize : Nat) :
    Mnet.contentLength buffer headerEnd maxBodySize =
      if SeenOver maxBodySize (lineDigits buffer i) then .error (-1) else .ok (n % SIZE_T) := by
  obtain ⟨hi, hocc⟩ := of_mem_contentLengthLines (h.lengths ▸ List.mem_singleton.mpr rfl)
  have hvalue := (contentLengthValue_at h.head hi hocc maxBodySize).1
  rw [h.number] at hvalue
  have hflag := foldl_scanDigit_overflow_iff maxBodySize (lineDigits buffer i)
  have hline : Mnet.contentLength buffer headerEnd maxBodySize =
      contentLengthValue maxBodySize ((cstr buffer).drop (i + 15)) := by
    simp [Mnet.contentLength, h.lengths, h.codings]
  rw [hline]
  by_cases hseen : SeenOver maxBodySize (lineDigits buffer i)
  · rw [if_pos hseen]
    exact hvalue.trans (if_pos (hflag.mpr hseen))
  · rw [if_neg hseen]
    exact hvalue.trans (if_neg (mt hflag.mp hseen))

/-- A framing that is accepted keeps the limit. -/
theorem le_of_contentLength_ok {len maxBodySize : Nat}
    (h : contentLength buffer headerEnd maxBodySize = .ok len) : len ≤ maxBodySize := by
  obtain ⟨-, ⟨-, rfl⟩ | ⟨i, -, hvalue⟩⟩ := contentLength_ok h
  · exact Nat.zero_le _
  · unfold contentLengthValue at hvalue
    dsimp only at hvalue
    generalize (((cstr buffer).drop (i + 15)).dropWhile isBlank).takeWhile isDigit = digits
      at hvalue
    split at hvalue
    · simp at hvalue
    · split at hvalue
      · simp at hvalue
      · next hover =>
        have hparsed : (digits.foldl (scanDigit maxBodySize) {}).parsed =
            decimalFrom 0 digits % SIZE_T := foldl_scanDigit_parsed maxBodySize digits rfl
        rw [foldl_scanDigit_overflow_iff, SeenOver, not_or] at hover
        rw [← Except.ok.inj hvalue, hparsed]
        exact Nat.not_lt.mp hover.2

end

end Mnet
