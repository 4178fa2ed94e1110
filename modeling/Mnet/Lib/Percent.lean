/-
  Mnet.Lib.Percent

  Percent coding of byte strings without NUL: the strict reading of a text, and
  the texts a string may be written as.

  `raw` is what a byte stands for that begins no escape: itself in a path, or a
  space for `+` in a form.  The reading refuses `%00`, which would end a string
  in its middle.
-/

import Mathlib.Data.List.Basic
import Mathlib.Data.UInt

namespace Percent

/-- The value of a hex digit of either case. -/
def hexDigit? (c : UInt8) : Option Nat :=
  if 48 ≤ c ∧ c ≤ 57 then some (c.toNat - 48)
  else if 65 ≤ c ∧ c ≤ 70 then some (c.toNat - 55)
  else if 97 ≤ c ∧ c ≤ 102 then some (c.toNat - 87)
  else none

variable (raw : UInt8 → UInt8)

/-- The string a text stands for: none where a `%` is not followed by two hex
    digits, or by those of the byte 0. -/
def decode : List UInt8 → Option (List UInt8)
  | [] => some []
  | 37 :: hi :: lo :: s =>
      match hexDigit? hi, hexDigit? lo with
      | some h, some l =>
          if UInt8.ofNat (h * 16 + l) = 0 then none
          else (decode s).map (UInt8.ofNat (h * 16 + l) :: ·)
      | _, _ => none
  | c :: s => if c = 37 then none else (decode s).map (raw c :: ·)

/-- `%XX`, in either case. -/
def IsEscape (b : UInt8) (piece : List UInt8) : Prop :=
  ∃ hi lo, piece = [37, hi, lo] ∧ hexDigit? hi = some (b.toNat / 16) ∧
    hexDigit? lo = some (b.toNat % 16)

/-- The text writes the string byte by byte, each as one of the pieces `unit`
    allows for it. -/
inductive Writes (unit : UInt8 → List UInt8 → Prop) : List UInt8 → List UInt8 → Prop
  | nil : Writes unit [] []
  | cons {b : UInt8} {piece bs text : List UInt8} (hb : unit b piece)
      (hbs : Writes unit bs text) : Writes unit (b :: bs) (piece ++ text)

variable {raw}

/-! ## Reading -/

theorem decode_escape {hi lo : UInt8} {h l : Nat} (hhi : hexDigit? hi = some h)
    (hlo : hexDigit? lo = some l) (hne : UInt8.ofNat (h * 16 + l) ≠ 0) (s : List UInt8) :
    decode raw (37 :: hi :: lo :: s) = (decode raw s).map (UInt8.ofNat (h * 16 + l) :: ·) := by
  rw [decode]
  simp only [hhi, hlo, if_neg hne]

theorem decode_raw {c : UInt8} (hc : c ≠ 37) (s : List UInt8) :
    decode raw (c :: s) = (decode raw s).map (raw c :: ·) := by
  rw [decode, if_neg hc]
  intro hi lo s' h
  exact absurd h hc

theorem decode_zero {hi lo : UInt8} {h l : Nat} (hhi : hexDigit? hi = some h)
    (hlo : hexDigit? lo = some l) (hzero : UInt8.ofNat (h * 16 + l) = 0) (s : List UInt8) :
    decode raw (37 :: hi :: lo :: s) = none := by
  rw [decode]
  simp only [hhi, hlo, if_pos hzero]

theorem decode_malformed {hi lo : UInt8}
    (hbad : ∀ h l, hexDigit? hi = some h → hexDigit? lo = some l → False) (s : List UInt8) :
    decode raw (37 :: hi :: lo :: s) = none := by
  rw [decode]
  split
  · next h l hhi hlo => exact absurd hlo (hbad h l hhi)
  · rfl

theorem decode_truncated {s : List UInt8} (hshort : ∀ hi lo s', s = hi :: lo :: s' → False) :
    decode raw (37 :: s) = none := by
  rw [decode]
  · exact if_pos rfl
  · exact fun hi lo s' _ => hshort hi lo s'

/-- What is read holds no byte 0. -/
theorem zero_not_mem_decode {s t : List UInt8} (hraw : ∀ c ∈ s, raw c ≠ 0)
    (h : decode raw s = some t) : 0 ∉ t := by
  fun_induction decode raw s generalizing t with
  | case1 =>
      obtain rfl : [] = t := Option.some.inj h
      exact List.not_mem_nil
  | case2 => simp at h
  | case3 hi lo s x y hlo hhi hne ih =>
      obtain ⟨t', ht', rfl⟩ := Option.map_eq_some_iff.mp h
      have hrest := ih (fun c hc => hraw c (by simp [hc])) ht'
      exact List.not_mem_cons_of_ne_of_not_mem (Ne.symm hne) hrest
  | case4 => simp at h
  | case5 => simp at h
  | case6 c s hc hne ih =>
      obtain ⟨t', ht', rfl⟩ := Option.map_eq_some_iff.mp h
      have hrest := ih (fun d hd => hraw d (List.mem_cons_of_mem c hd)) ht'
      exact List.not_mem_cons_of_ne_of_not_mem (Ne.symm (hraw c (List.mem_cons_self ..))) hrest

/-- What the bytes stand for matters for those of the text only. -/
theorem decode_congr {raw' : UInt8 → UInt8} {s : List UInt8} (h : ∀ c ∈ s, raw c = raw' c) :
    decode raw s = decode raw' s := by
  fun_induction decode raw s with
  | case1 => rfl
  | case2 hi lo s x y hlo hhi hzero => exact (decode_zero hhi hlo hzero s).symm
  | case3 hi lo s x y hlo hhi hne ih =>
      rw [decode_escape hhi hlo hne, ih fun c hc => h c (by simp [hc])]
  | case4 hi lo s hbad => exact (decode_malformed hbad s).symm
  | case5 s hshort => exact (decode_truncated fun hi lo s' => hshort hi lo s' rfl).symm
  | case6 c s hc hne ih =>
      rw [decode_raw hne, ih fun d hd => h d (List.mem_cons_of_mem c hd), h c (List.mem_cons_self ..)]

/-! ## Writing -/

/-- What holds of the bytes of all pieces holds of those of the text. -/
theorem Writes.forall_mem {unit : UInt8 → List UInt8 → Prop} {p : UInt8 → Prop}
    (hunit : ∀ b piece, unit b piece → ∀ c ∈ piece, p c) {bs text : List UInt8}
    (h : Writes unit bs text) : ∀ c ∈ text, p c := by
  induction h with
  | nil => simp
  | cons hb _ ih =>
      intro c hc
      rcases List.mem_append.mp hc with hc | hc
      · exact hunit _ _ hb c hc
      · exact ih c hc

-- ============================================================================
-- The grammar
-- ============================================================================

/-- The text stands for the string, byte by byte; the byte 0 is no exception. -/
inductive Reads (raw : UInt8 → UInt8) : List UInt8 → List UInt8 → Prop
  | nil : Reads raw [] []
  | escape {hi lo : UInt8} {h l : Nat} {s t : List UInt8} (hhi : hexDigit? hi = some h)
      (hlo : hexDigit? lo = some l) (hs : Reads raw s t) :
      Reads raw (37 :: hi :: lo :: s) (UInt8.ofNat (h * 16 + l) :: t)
  | raw {c : UInt8} {s t : List UInt8} (hc : c ≠ 37) (hs : Reads raw s t) :
      Reads raw (c :: s) (raw c :: t)

/-- Every `%` is followed by two hex digits. -/
def EscapesComplete (s : List UInt8) : Prop :=
  ∀ i : Nat, s[i]? = some 37 → ∃ hi lo, s[i + 1]? = some hi ∧ s[i + 2]? = some lo ∧
    (hexDigit? hi).isSome = true ∧ (hexDigit? lo).isSome = true

theorem Reads.nil_inversion {t : List UInt8} (h : Reads raw [] t) : t = [] := by
  cases h
  rfl

/-- What begins with a `%` begins with an escape. -/
theorem Reads.escape_inversion {s t : List UInt8} (h : Reads raw (37 :: s) t) :
    ∃ hi lo x y s' t', s = hi :: lo :: s' ∧ t = UInt8.ofNat (x * 16 + y) :: t' ∧
      hexDigit? hi = some x ∧ hexDigit? lo = some y ∧ Reads raw s' t' := by
  cases h with
  | escape hhi hlo hs => exact ⟨_, _, _, _, _, _, rfl, rfl, hhi, hlo, hs⟩
  | raw hc hs => exact absurd rfl hc

theorem Reads.raw_inversion {c : UInt8} {s t : List UInt8} (hc : c ≠ 37)
    (h : Reads raw (c :: s) t) : ∃ t', t = raw c :: t' ∧ Reads raw s t' := by
  cases h with
  | escape => exact absurd rfl hc
  | raw _ hs => exact ⟨_, rfl, hs⟩

/-- A front part that can be read, of a text that begins with a `%`, is empty or
    begins with the escape. -/
theorem Reads.front_escape {p s t : List UInt8} (hp : p <+: 37 :: s) (h : Reads raw p t) :
    (p = [] ∧ t = []) ∨ ∃ hi lo x y p' s' t', s = hi :: lo :: s' ∧ p = 37 :: hi :: lo :: p' ∧
      t = UInt8.ofNat (x * 16 + y) :: t' ∧ p' <+: s' ∧ hexDigit? hi = some x ∧
      hexDigit? lo = some y ∧ Reads raw p' t' := by
  obtain ⟨rest, hrest⟩ := hp
  cases p with
  | nil => exact .inl ⟨rfl, h.nil_inversion⟩
  | cons c p =>
      obtain ⟨rfl, rfl⟩ := List.cons.inj hrest
      obtain ⟨hi, lo, x, y, p', t', rfl, rfl, hhi, hlo, hp'⟩ := h.escape_inversion
      exact .inr ⟨hi, lo, x, y, p', p' ++ rest, t', rfl, rfl, rfl, List.prefix_append p' rest,
        hhi, hlo, hp'⟩

theorem Reads.front_escape_of_hexDigit {hi lo : UInt8} {x y : Nat} {p s t : List UInt8}
    (hhi : hexDigit? hi = some x) (hlo : hexDigit? lo = some y) (hp : p <+: 37 :: hi :: lo :: s)
    (h : Reads raw p t) :
    (p = [] ∧ t = []) ∨ ∃ p' t', p = 37 :: hi :: lo :: p' ∧ t = UInt8.ofNat (x * 16 + y) :: t' ∧
      p' <+: s ∧ Reads raw p' t' := by
  obtain hnil | ⟨hi', lo', x', y', p', s', t', hs, rfl, rfl, hp', hx, hy, hreads⟩ :=
    h.front_escape hp
  · exact .inl hnil
  · obtain ⟨rfl, rfl, rfl⟩ : hi = hi' ∧ lo = lo' ∧ s = s' := by simpa using hs
    rw [hhi] at hx
    rw [hlo] at hy
    obtain rfl := Option.some.inj hx
    obtain rfl := Option.some.inj hy
    exact .inr ⟨p', t', rfl, rfl, hp', hreads⟩

theorem Reads.front_raw {c : UInt8} {p s t : List UInt8} (hc : c ≠ 37) (hp : p <+: c :: s)
    (h : Reads raw p t) :
    (p = [] ∧ t = []) ∨ ∃ p' t', p = c :: p' ∧ t = raw c :: t' ∧ p' <+: s ∧ Reads raw p' t' := by
  obtain ⟨rest, hrest⟩ := hp
  cases p with
  | nil => exact .inl ⟨rfl, h.nil_inversion⟩
  | cons d p =>
      obtain ⟨rfl, rfl⟩ := List.cons.inj hrest
      obtain ⟨t', rfl, hp'⟩ := h.raw_inversion hc
      exact .inr ⟨p, t', rfl, rfl, List.prefix_append p rest, hp'⟩

/-- A text stands for one string at most. -/
theorem Reads.unique {s t t' : List UInt8} (h : Reads raw s t) (h' : Reads raw s t') : t = t' := by
  induction h generalizing t' with
  | nil => exact h'.nil_inversion.symm
  | escape hhi hlo hs ih =>
      obtain ⟨hi, lo, x, y, s', t'', heq, rfl, hhi', hlo', hs'⟩ := h'.escape_inversion
      obtain ⟨rfl, hrest⟩ := List.cons.inj heq
      obtain ⟨rfl, rfl⟩ := List.cons.inj hrest
      rw [hhi] at hhi'
      rw [hlo] at hlo'
      obtain rfl := Option.some.inj hhi'
      obtain rfl := Option.some.inj hlo'
      rw [ih hs']
  | raw hc hs ih =>
      obtain ⟨t'', rfl, hs'⟩ := h'.raw_inversion hc
      rw [ih hs']

/-- A text is no shorter than the string it stands for. -/
theorem Reads.length_le {s t : List UInt8} (h : Reads raw s t) : t.length ≤ s.length := by
  induction h with
  | nil => exact Nat.le_refl 0
  | escape =>
      simp only [List.length_cons]
      omega
  | raw =>
      simp only [List.length_cons]
      omega

theorem ne_percent_of_hexDigit {c : UInt8} (h : (hexDigit? c).isSome = true) : c ≠ 37 := by
  rintro rfl
  exact absurd h (by decide)

/-- The texts that stand for a string are those whose escapes are complete. -/
theorem exists_reads_iff (raw : UInt8 → UInt8) {s : List UInt8} :
    (∃ t, Reads raw s t) ↔ EscapesComplete s := by
  constructor
  · rintro ⟨t, h⟩
    induction h with
    | nil => intro i hi; simp at hi
    | @escape hi lo h l s t hhi hlo _ ih =>
        have hhi' : (hexDigit? hi).isSome = true := by rw [hhi]; rfl
        have hlo' : (hexDigit? lo).isSome = true := by rw [hlo]; rfl
        intro i hi'
        match i, hi' with
        | 0, _ => exact ⟨hi, lo, rfl, rfl, hhi', hlo'⟩
        | 1, hi' => exact absurd (Option.some.inj hi') (ne_percent_of_hexDigit hhi')
        | 2, hi' => exact absurd (Option.some.inj hi') (ne_percent_of_hexDigit hlo')
        | i + 3, hi' => exact ih i hi'
    | raw hc _ ih =>
        intro i hi
        match i, hi with
        | 0, hi => exact absurd (Option.some.inj hi) hc
        | i + 1, hi => exact ih i hi
  · intro h
    induction hn : s.length using Nat.strongRecOn generalizing s with
    | ind n ih =>
        cases s with
        | nil => exact ⟨[], .nil⟩
        | cons c s =>
            by_cases hc : c = 37
            · subst hc
              obtain ⟨hi, lo, hhi, hlo, hhi', hlo'⟩ := h 0 rfl
              match s, hhi, hlo with
              | a :: b :: s, hhi, hlo =>
                  obtain rfl : a = hi := Option.some.inj hhi
                  obtain rfl : b = lo := Option.some.inj hlo
                  obtain ⟨x, hx⟩ := Option.isSome_iff_exists.mp hhi'
                  obtain ⟨y, hy⟩ := Option.isSome_iff_exists.mp hlo'
                  have hrest : EscapesComplete s := fun i hi => h (i + 3) hi
                  simp only [List.length_cons] at hn
                  obtain ⟨t, ht⟩ := ih s.length (by omega) hrest rfl
                  exact ⟨_, .escape hx hy ht⟩
            · have hrest : EscapesComplete s := fun i hi => h (i + 1) hi
              rw [List.length_cons] at hn
              obtain ⟨t, ht⟩ := ih s.length (by omega) hrest rfl
              exact ⟨_, .raw hc ht⟩

/-- A string written in escapes and bytes that stand for its own is read so. -/
theorem Writes.reads {unit : UInt8 → List UInt8 → Prop}
    (hunit : ∀ b piece, unit b piece → IsEscape b piece ∨ ∃ c, c ≠ 37 ∧ piece = [c] ∧ raw c = b)
    {bs text : List UInt8} (h : Writes unit bs text) : Reads raw text bs := by
  induction h with
  | nil => exact .nil
  | @cons b piece bs text hb _ ih =>
      obtain ⟨hi, lo, rfl, hhi, hlo⟩ | ⟨c, hc, rfl, rfl⟩ := hunit _ _ hb
      · have hval : UInt8.ofNat (b.toNat / 16 * 16 + b.toNat % 16) = b := by
          rw [Nat.div_add_mod', UInt8.ofNat_toNat]
        have hreads := Reads.escape hhi hlo ih
        rwa [hval] at hreads
      · exact .raw hc ih

/-- What the strict reading reads is in the grammar. -/
theorem reads_of_decode {s t : List UInt8} (h : decode raw s = some t) : Reads raw s t := by
  fun_induction decode raw s generalizing t with
  | case1 =>
      obtain rfl : [] = t := Option.some.inj h
      exact .nil
  | case2 => simp at h
  | case3 hi lo s x y hlo hhi hne ih =>
      obtain ⟨t', ht', rfl⟩ := Option.map_eq_some_iff.mp h
      exact .escape hhi hlo (ih ht')
  | case4 => simp at h
  | case5 => simp at h
  | case6 c s hc hne ih =>
      obtain ⟨t', ht', rfl⟩ := Option.map_eq_some_iff.mp h
      exact .raw hne (ih ht')

/-- What is in the grammar is read unless it stands for a byte 0. -/
theorem Reads.decode_eq {s t : List UInt8} (h : Reads raw s t) (h0 : 0 ∉ t) :
    decode raw s = some t := by
  induction h with
  | nil => rfl
  | escape hhi hlo _ ih =>
      rw [List.mem_cons, not_or] at h0
      rw [decode_escape hhi hlo (Ne.symm h0.1), ih h0.2]
      rfl
  | raw hc _ ih =>
      rw [List.mem_cons, not_or] at h0
      rw [decode_raw hc, ih h0.2]
      rfl

/-- A string written in escapes and bytes that stand for its own is read
    back. -/
theorem Writes.decode_eq {unit : UInt8 → List UInt8 → Prop}
    (hunit : ∀ b piece, unit b piece → IsEscape b piece ∨ ∃ c, c ≠ 37 ∧ piece = [c] ∧ raw c = b)
    {bs text : List UInt8} (h0 : 0 ∉ bs) (h : Writes unit bs text) :
    decode raw text = some bs :=
  (h.reads hunit).decode_eq h0

end Percent
