/-
  Mnet.JsonfFormats

  How `mnet_jsonfv` cuts a format, and which pieces stop it.

  `PieceAt` says on the characters of a format what stands at its front, and
  `nextPiece_iff` that the loop cuts it so.  A piece that stops the format, one
  that overruns `nspec` and what `snprintf` gets for any other are told by the
  characters, the length and the numbers of the piece, and `stepSpec` is what
  the filters of the loop make of it.
-/

import Mnet.Jsonf
import Mnet.Lib.Printf

namespace Mnet

-- ============================================================================
-- The pieces of a format
-- ============================================================================

/-- The characters a directive ends at. -/
def conversionCharacters : Bytes := ascii "%diouxXfFeEgGaAcCpPn"

/-- What stands behind the `%` begins with `s`, or with a dot, digits and `s`. -/
def AsksString (behind : Bytes) : Prop :=
  [115] <+: behind ∨
    ∃ digits, (∀ b ∈ digits, isDigit b = true) ∧ 46 :: (digits ++ [115]) <+: behind

/-- At the front of a format stands a piece, and behind it the rest. -/
inductive PieceAt : Bytes → JsonfPiece → Bytes → Prop where
  | byte {b : Byte} {rest : Bytes} (hb : b ≠ PERCENT) : PieceAt (b :: rest) (.byte b) rest
  | percent {rest : Bytes} : PieceAt (PERCENT :: PERCENT :: rest) (.byte PERCENT) rest
  | string {rest : Bytes} : PieceAt (PERCENT :: 115 :: rest) .string rest
  | cutString {digits rest : Bytes} (hdigits : ∀ b ∈ digits, isDigit b = true) :
      PieceAt (PERCENT :: 46 :: (digits ++ 115 :: rest)) (.cutString digits) rest
  | char {rest : Bytes} : PieceAt (PERCENT :: 99 :: rest) .char rest
  | star {rest : Bytes} : PieceAt (PERCENT :: 42 :: rest) .malformed []
  /-- no character to end at -/
  | unfinished {mid : Bytes} (hmid : ∀ b ∈ mid, b ∉ conversionCharacters)
      (hstring : ¬ AsksString mid) : PieceAt (PERCENT :: mid) .malformed []
  | spec {mid rest : Bytes} {conv : Byte} (hmid : ∀ b ∈ mid, b ∉ conversionCharacters)
      (hconv : conv ∈ conversionCharacters) (hstring : ¬ AsksString mid)
      (hstar : mid.head? ≠ some 42) (hnil : mid = [] → conv ≠ PERCENT ∧ conv ≠ 99) :
      PieceAt (PERCENT :: (mid ++ conv :: rest)) (.spec mid conv) rest

theorem endsSpec_iff (b : Byte) : endsSpec b = true ↔ b ∈ conversionCharacters := by
  revert b
  apply forall_byte
  decide +kernel

/-- A character to end at is none that a string is asked with. -/
theorem plain_of_conversion {b : Byte} (h : b ∈ conversionCharacters) :
    b ≠ 115 ∧ b ≠ 46 ∧ b ≠ 42 ∧ isDigit b = false := by
  have hall : ∀ b ∈ conversionCharacters, b ≠ 115 ∧ b ≠ 46 ∧ b ≠ 42 ∧ isDigit b = false := by
    decide +kernel
  exact hall b h

theorem prefix_singleton_iff {b : Byte} {f : Bytes} : [b] <+: f ↔ f.head? = some b := by
  cases f with
  | nil => simp
  | cons c f => simp [List.cons_prefix_cons, eq_comm]

/-- The digits behind the dot are all that stand there. -/
theorem asksString_iff (f : Bytes) :
    AsksString f ↔ f.head? = some 115 ∨
      (f.head? = some 46 ∧ ((f.drop 1).dropWhile isDigit).head? = some 115) := by
  rw [AsksString, prefix_singleton_iff]
  refine or_congr_right ⟨?_, ?_⟩
  · rintro ⟨digits, hdigits, rest, rfl⟩
    refine ⟨rfl, ?_⟩
    show (((digits ++ [115]) ++ rest).dropWhile isDigit).head? = some 115
    rw [List.append_assoc, List.dropWhile_append_of_pos hdigits]
    rfl
  · rintro ⟨hdot, hs⟩
    cases f with
    | nil => simp at hdot
    | cons b f =>
        obtain rfl : b = 46 := Option.some.inj hdot
        refine ⟨f.takeWhile isDigit, fun b hb => List.mem_takeWhile_imp hb, ?_⟩
        rw [List.cons_prefix_cons]
        refine ⟨rfl, ?_⟩
        conv_rhs => rw [← List.takeWhile_append_dropWhile (p := isDigit) (l := f)]
        rw [List.prefix_append_right_inj, prefix_singleton_iff]
        exact hs

/-- The character a directive ends at asks for no string. -/
theorem asksString_append {mid rest : Bytes} {conv : Byte} (hconv : conv ∈ conversionCharacters) :
    AsksString (mid ++ conv :: rest) ↔ AsksString mid := by
  obtain ⟨hs, hdot, -, hdigit⟩ := plain_of_conversion hconv
  rw [asksString_iff, asksString_iff]
  cases mid with
  | nil => simp [hs, hdot]
  | cons b mid =>
      simp only [List.cons_append, List.head?_cons, List.drop_succ_cons, List.drop_zero,
        List.dropWhile_append, List.dropWhile_cons, hdigit]
      split
      · next hempty => simp [List.isEmpty_iff.mp hempty, hs]
      · next hempty =>
        rw [List.head?_append_of_ne_nil _ (mt List.isEmpty_iff.mpr hempty)]

/-- Text the loop has no conversion of its own for. -/
theorem pieceBehindPercent_other {f : Bytes} (hpercent : f.head? ≠ some PERCENT) (hne : f ≠ [])
    (hstar : f.head? ≠ some 42) (hstring : ¬ AsksString f) (hchar : f.head? ≠ some 99) :
    pieceBehindPercent f =
      match f.dropWhile fun b => !endsSpec b with
      | [] => (.malformed, [])
      | conv :: rest => (.spec (f.takeWhile fun b => !endsSpec b) conv, rest) := by
  obtain ⟨hs, hcut⟩ := not_or.mp (mt (asksString_iff f).mpr hstring)
  rw [pieceBehindPercent, if_neg hpercent, if_neg (not_or.mpr ⟨hne, hstar⟩), if_neg hcut,
    if_neg hs]
  exact if_neg hchar

theorem not_endsSpec_iff (b : Byte) : (!endsSpec b) = true ↔ b ∉ conversionCharacters := by
  rw [← endsSpec_iff, Bool.not_eq_true', Bool.not_eq_true]

section Cut

variable {mid rest digits : Bytes} {conv : Byte}

/-- Up to a character to end at, the loop for one goes on. -/
theorem scans_of_plain (hmid : ∀ b ∈ mid, b ∉ conversionCharacters) :
    ∀ b ∈ mid, (!endsSpec b) = true :=
  fun b hb => (not_endsSpec_iff b).mpr (hmid b hb)

theorem head?_ne_of_plain (hmid : ∀ b ∈ mid, b ∉ conversionCharacters) {b : Byte}
    (hb : b ∈ conversionCharacters) : mid.head? ≠ some b :=
  fun h => hmid b (List.mem_of_head? h) hb

theorem behindPercent_cutString (hdigits : ∀ b ∈ digits, isDigit b = true) :
    pieceBehindPercent (46 :: (digits ++ 115 :: rest)) = (.cutString digits, rest) := by
  have hdrop : (digits ++ 115 :: rest).dropWhile isDigit = 115 :: rest := by
    rw [List.dropWhile_append_of_pos hdigits]
    rfl
  have htake : (digits ++ 115 :: rest).takeWhile isDigit = digits := by
    rw [List.takeWhile_append_of_pos hdigits]
    exact List.append_nil _
  have hdot : (46 : Byte) ≠ PERCENT := by decide
  simp [pieceBehindPercent, hdrop, htake, hdot]

theorem behindPercent_unfinished (hmid : ∀ b ∈ mid, b ∉ conversionCharacters)
    (hstring : ¬ AsksString mid) : pieceBehindPercent mid = (.malformed, []) := by
  by_cases hnil : mid = []
  · rw [hnil]
    rfl
  by_cases hstar : mid.head? = some 42
  · obtain ⟨rest, rfl⟩ := List.head?_eq_some_iff.mp hstar
    rfl
  · rw [pieceBehindPercent_other (head?_ne_of_plain hmid (by decide)) hnil hstar hstring
      (head?_ne_of_plain hmid (by decide)), List.dropWhile_eq_nil_iff.mpr (scans_of_plain hmid)]

theorem behindPercent_spec (hmid : ∀ b ∈ mid, b ∉ conversionCharacters)
    (hconv : conv ∈ conversionCharacters) (hstring : ¬ AsksString mid)
    (hstar : mid.head? ≠ some 42) (hnil : mid = [] → conv ≠ PERCENT ∧ conv ≠ 99) :
    pieceBehindPercent (mid ++ conv :: rest) = (.spec mid conv, rest) := by
  have hhead : ∀ c, mid.head? ≠ some c → (mid = [] → conv ≠ c) →
      (mid ++ conv :: rest).head? ≠ some c := by
    intro c hmid hconv
    cases mid with
    | nil => exact fun h => hconv rfl (Option.some.inj h)
    | cons b mid => exact hmid
  have hpercent := hhead _ (head?_ne_of_plain hmid (by decide)) fun h => (hnil h).1
  have hchar := hhead _ (head?_ne_of_plain hmid (by decide)) fun h => (hnil h).2
  have hbehind := hhead _ hstar fun _ => (plain_of_conversion hconv).2.2.1
  have hall := scans_of_plain hmid
  have hend : (!endsSpec conv) = false := by
    rw [(endsSpec_iff conv).mpr hconv]
    rfl
  rw [pieceBehindPercent_other hpercent (by simp) hbehind (mt (asksString_append hconv).mp hstring)
      hchar,
    List.dropWhile_append_of_pos hall, List.takeWhile_append_of_pos hall, List.dropWhile_cons,
    List.takeWhile_cons, hend]
  simp

end Cut

/-- The loop finds the piece that stands at the front. -/
theorem PieceAt.next {f rest : Bytes} {piece : JsonfPiece} (h : PieceAt f piece rest) :
    nextPiece f = some (piece, rest) := by
  cases h with
  | byte hb => exact if_neg hb
  | percent => rfl
  | string => rfl
  | cutString hdigits => exact congrArg some (behindPercent_cutString hdigits)
  | char => rfl
  | star => rfl
  | unfinished hmid hstring => exact congrArg some (behindPercent_unfinished hmid hstring)
  | spec hmid hconv hstring hstar hnil =>
      exact congrArg some (behindPercent_spec hmid hconv hstring hstar hnil)

/-- Some piece stands at the front of every format that is not at its end. -/
theorem exists_pieceAt (b : Byte) (f : Bytes) : ∃ piece rest, PieceAt (b :: f) piece rest := by
  by_cases hb : b = PERCENT
  case neg => exact ⟨_, _, .byte hb⟩
  subst hb
  by_cases hpercent : f.head? = some PERCENT
  · obtain ⟨rest, rfl⟩ := List.head?_eq_some_iff.mp hpercent
    exact ⟨_, _, .percent⟩
  by_cases hstar : f.head? = some 42
  · obtain ⟨rest, rfl⟩ := List.head?_eq_some_iff.mp hstar
    exact ⟨_, _, .star⟩
  by_cases hchar : f.head? = some 99
  · obtain ⟨rest, rfl⟩ := List.head?_eq_some_iff.mp hchar
    exact ⟨_, _, .char⟩
  by_cases hstring : AsksString f
  · obtain ⟨rest, rfl⟩ | ⟨digits, hdigits, rest, rfl⟩ := hstring
    · exact ⟨_, _, .string⟩
    · rw [List.cons_append, List.append_assoc]
      exact ⟨_, _, .cutString hdigits⟩
  -- up to the first character to end at, or to the end
  have hsplit := List.takeWhile_append_dropWhile (p := fun b => !endsSpec b) (l := f)
  have hmid : ∀ b ∈ f.takeWhile fun b => !endsSpec b, b ∉ conversionCharacters :=
    fun b hb => (not_endsSpec_iff b).mp (List.mem_takeWhile_imp (p := fun b => !endsSpec b) hb)
  generalize f.takeWhile (fun b => !endsSpec b) = mid at hsplit hmid
  cases hbehind : f.dropWhile fun b => !endsSpec b with
  | nil =>
      rw [hbehind, List.append_nil] at hsplit
      subst hsplit
      exact ⟨_, _, .unfinished hmid hstring⟩
  | cons conv rest =>
      have hconv : conv ∈ conversionCharacters := by
        have hhead := List.head?_dropWhile_not (fun b => !endsSpec b) f
        rw [hbehind] at hhead
        exact (endsSpec_iff conv).mp (by simpa using hhead)
      rw [hbehind] at hsplit
      subst hsplit
      refine ⟨_, _, .spec hmid hconv (mt (asksString_append hconv).mpr hstring) ?_ ?_⟩
      · intro h
        exact hstar (by rw [List.head?_append, h]; rfl)
      · rintro rfl
        exact ⟨fun h => hpercent (by rw [h]; rfl), fun h => hchar (by rw [h]; rfl)⟩

/-- The loop finds just the piece that stands at the front. -/
theorem nextPiece_iff {f rest : Bytes} {piece : JsonfPiece} :
    nextPiece f = some (piece, rest) ↔ PieceAt f piece rest := by
  refine ⟨fun h => ?_, PieceAt.next⟩
  cases f with
  | nil => exact absurd h (by simp [nextPiece])
  | cons b f =>
      obtain ⟨piece', rest', hat⟩ := exists_pieceAt b f
      obtain ⟨rfl, rfl⟩ := Prod.mk.inj (Option.some.inj (h.symm.trans hat.next))
      exact hat

-- ============================================================================
-- What a piece is
-- ============================================================================

/-- `%n`, `%p` and `%a`; and a flag, a digit, a dot, a `*` or a letter of a
    length modifier where no number is converted. -/
def Barred (mid : Bytes) (conv : Byte) : Prop :=
  conv ∈ ascii "npa" ∨
    (conv ∉ ascii "diouxXfFeEgGaA" ∧ ∃ b ∈ mid, b ∈ ascii "0123456789+-# *.lhzjtL")

instance (mid : Bytes) (conv : Byte) : Decidable (Barred mid conv) :=
  inferInstanceAs (Decidable (_ ∨ _))

/-- The number of the digits right behind the `%`, as a `long`, is above 4096. -/
def TooWide (mid : Bytes) : Prop :=
  4096 < (Printf.decimalNumber (mid.takeWhile isDigit) : Int).bmod (2 ^ 64)

instance (mid : Bytes) : Decidable (TooWide mid) := inferInstanceAs (Decidable (_ < _))

namespace JsonfPiece

/-- The piece is no directive, or one of less than 64 bytes that is barred or
    too wide. -/
def Stops : JsonfPiece → Prop
  | .malformed => True
  | .spec mid conv => mid.length < 62 ∧ (Barred mid conv ∨ TooWide mid)
  | _ => False

/-- With `ll` for its length modifier the directive is one of 64 bytes or
    more. -/
def Overflows : JsonfPiece → Prop
  | .spec mid conv =>
      mid.length < 62 ∧ conv ∉ ascii "fFeEgGaA" ∧ 60 ≤ mid.countP (· ∉ ascii "lhzjt")
  | _ => False

/-- What `snprintf` gets of the piece, if it is let pass: of an integer
    directive the one for a `long long`, of that for a `long double` the one
    with its `L` at the end. -/
def handed : JsonfPiece → Option Bytes
  | .spec mid conv =>
      if 62 ≤ mid.length then none
      else if conv ∈ ascii "fFeEgGaA" then
        if 76 ∈ mid then some (PERCENT :: mid.filter (· ≠ 76) ++ [76, conv])
        else some (PERCENT :: mid ++ [conv])
      else some (PERCENT :: mid.filter (· ∉ ascii "lhzjt") ++ ascii "ll" ++ [conv])
  | _ => none

end JsonfPiece

/-- The piece is let pass: it does not overrun `nspec`, and `snprintf` gets what
    it may get. -/
structure JsonfPiece.Passes (Safe : Bytes → Prop) (piece : JsonfPiece) : Prop where
  fits : ¬ piece.Overflows
  handed : ∀ spec ∈ piece.handed, Safe spec

/-- A piece that stops the format comes, and only pieces that pass before it. -/
inductive ComesToStop (Safe : Bytes → Prop) : Bytes → Prop where
  | here {f rest : Bytes} {piece : JsonfPiece} (hat : PieceAt f piece rest) (h : piece.Stops) :
      ComesToStop Safe f
  | later {f rest : Bytes} {piece : JsonfPiece} (hat : PieceAt f piece rest)
      (h : piece.Passes Safe) (hrest : ComesToStop Safe rest) : ComesToStop Safe f

theorem not_comesToStop_nil {Safe : Bytes → Prop} : ¬ ComesToStop Safe [] := by
  intro h
  cases h with
  | here hat _ => cases hat
  | later hat _ _ => cases hat

/-- The first piece decides, or the rest does. -/
theorem comesToStop_iff {Safe : Bytes → Prop} {f rest : Bytes} {piece : JsonfPiece}
    (hat : PieceAt f piece rest) :
    ComesToStop Safe f ↔ piece.Stops ∨ (piece.Passes Safe ∧ ComesToStop Safe rest) := by
  have hunique : ∀ {piece' rest'}, PieceAt f piece' rest' → piece' = piece ∧ rest' = rest :=
    fun hat' => Prod.mk.inj (Option.some.inj (hat'.next.symm.trans hat.next))
  constructor
  · intro h
    cases h with
    | here hat' h =>
        obtain ⟨rfl, rfl⟩ := hunique hat'
        exact .inl h
    | later hat' h hrest =>
        obtain ⟨rfl, rfl⟩ := hunique hat'
        exact .inr ⟨h, hrest⟩
  · rintro (h | ⟨h, hrest⟩)
    · exact .here hat h
    · exact .later hat h hrest

-- ============================================================================
-- What the filters make of a piece
-- ============================================================================

/-- The scan looks for `n`, `p` and `a`, which are conversion characters, and
    for those that are allowed on numbers. -/
theorem scanRejects_iff {conv b : Byte} (hb : b ∉ conversionCharacters) :
    scanRejects conv b = true ↔
      conv ∉ ascii "diouxXfFeEgGaA" ∧ b ∈ ascii "0123456789+-# *.lhzjtL" := by
  have hmodifier : b ∈ ascii "0123456789+-# *.lhzjtL" ↔
      b ∈ ascii "0123456789+-# *." ∨ b ∈ ascii "lhzjtL" := by
    have hsplit : ascii "0123456789+-# *.lhzjtL" = ascii "0123456789+-# *." ++ ascii "lhzjtL" := by
      decide
    rw [hsplit, List.mem_append]
  have hnpa : b ∉ ascii "npa" := fun h => hb ((by decide : ascii "npa" ⊆ conversionCharacters) h)
  simp only [scanRejects, isNumericConv, Bool.or_eq_true, Bool.and_eq_true, Bool.not_eq_true',
    List.contains_iff_mem, ← Bool.not_eq_true, hnpa, hmodifier, or_false]
  rw [← or_and_right, and_comm]

/-- The scan rejects a conversion character just when it is `n`, `p` or `a`. -/
theorem scanRejects_self {conv : Byte} (hconv : conv ∈ conversionCharacters) :
    scanRejects conv conv = (ascii "npa").contains conv := by
  have hall : ∀ b ∈ conversionCharacters, scanRejects b b = (ascii "npa").contains b := by
    decide +kernel
  exact hall conv hconv

/-- The scan goes up to the conversion character, and over it if that is not a
    `%`. -/
theorem specRejected_iff {mid : Bytes} {conv : Byte}
    (hmid : ∀ b ∈ mid, b ∉ conversionCharacters) (hconv : conv ∈ conversionCharacters) :
    specRejected mid conv = true ↔ Barred mid conv := by
  have hpercent : PERCENT ∈ conversionCharacters := by decide
  have hscan : (mid ++ [conv]).takeWhile (· ≠ PERCENT) = mid ++ [conv].takeWhile (· ≠ PERCENT) := by
    apply List.takeWhile_append_of_pos
    exact fun b hb => decide_eq_true fun h => hmid b hb (h ▸ hpercent)
  have hmidRejects : mid.any (scanRejects conv) = true ↔
      conv ∉ ascii "diouxXfFeEgGaA" ∧ ∃ b ∈ mid, b ∈ ascii "0123456789+-# *.lhzjtL" := by
    rw [List.any_eq_true]
    constructor
    · rintro ⟨b, hb, hrejects⟩
      obtain ⟨hnumber, hmodifier⟩ := (scanRejects_iff (hmid b hb)).mp hrejects
      exact ⟨hnumber, b, hb, hmodifier⟩
    · rintro ⟨hnumber, b, hb, hmodifier⟩
      exact ⟨b, hb, (scanRejects_iff (hmid b hb)).mpr ⟨hnumber, hmodifier⟩⟩
  have hlast : ([conv].takeWhile (· ≠ PERCENT)).any (scanRejects conv) = true →
      conv ∈ ascii "npa" := by
    intro h
    obtain ⟨b, hb, hrejects⟩ := List.any_eq_true.mp h
    obtain rfl := List.mem_singleton.mp ((List.takeWhile_prefix _).subset hb)
    rw [scanRejects_self hconv] at hrejects
    exact List.contains_iff_mem.mp hrejects
  rw [specRejected, hscan, List.any_append, Bool.or_eq_true, Bool.or_eq_true, hmidRejects,
    List.contains_iff_mem, Barred]
  constructor
  · rintro ((h | h) | h)
    · exact .inr h
    · exact .inl (hlast h)
    · exact .inl h
  · rintro (h | h)
    · exact .inr h
    · exact .inl (.inl h)

/-- Digits read with a wrap at every step are read with one at the end. -/
theorem foldl_bmod {m : Nat} (ds : Bytes) (n : Nat) :
    ds.foldl (fun (v : Int) b => (v * 10 + digitVal b).bmod m) ((n : Int).bmod m) =
      ((ds.foldl (fun n b => n * 10 + digitVal b) n : Nat) : Int).bmod m := by
  induction ds generalizing n with
  | nil => rfl
  | cons b ds ih =>
      have hstep : ((n : Int).bmod m * 10 + digitVal b).bmod m =
          ((n * 10 + digitVal b : Nat) : Int).bmod m := by
        rw [Nat.cast_add, Nat.cast_mul, ← Int.bmod_add_bmod, Int.bmod_mul_bmod, Int.bmod_add_bmod]
        rfl
      rw [List.foldl_cons, hstep, ih]
      rfl

theorem specWidth_eq (mid : Bytes) :
    specWidth mid = (Printf.decimalNumber (mid.takeWhile isDigit) : Int).bmod (2 ^ 64) :=
  foldl_bmod (mid.takeWhile isDigit) 0

/-- The normalized directive of a piece. -/
theorem normalizedSpec_spec (mid : Bytes) (conv : Byte) :
    normalizedSpec mid conv =
        PERCENT :: mid.filter (· ∉ ascii "lhzjt") ++ ascii "ll" ++ [conv] ∧
      (normalizedSpec mid conv).length = mid.countP (· ∉ ascii "lhzjt") + 4 := by
  have hfilter : (fun b : Byte => !(ascii "lhzjt").contains b) = (decide <| · ∉ ascii "lhzjt") := by
    funext b
    rw [Bool.eq_iff_iff, Bool.not_eq_true', decide_eq_true_eq, ← Bool.not_eq_true,
      List.contains_iff_mem]
  have hlength : (ascii "ll").length = 2 := by decide
  have heq : normalizedSpec mid conv =
      PERCENT :: mid.filter (· ∉ ascii "lhzjt") ++ ascii "ll" ++ [conv] := by
    rw [normalizedSpec, hfilter]
  refine ⟨heq, ?_⟩
  rw [heq, List.length_append, List.length_append, List.length_cons, hlength,
    List.countP_eq_length_filter, List.length_singleton]

/-- What becomes of a directive, told by its characters. -/
theorem specFate_spec {mid : Bytes} {conv : Byte} (hmid : ∀ b ∈ mid, b ∉ conversionCharacters)
    (hconv : conv ∈ conversionCharacters) :
    specFate mid conv =
      if 62 ≤ mid.length then .passedOver
      else if Barred mid conv ∨ TooWide mid then .refused
      else if conv ∈ ascii "fFeEgGaA" then
        if 76 ∈ mid then .float true (PERCENT :: mid.filter (· ≠ 76) ++ [76, conv])
        else .float false (PERCENT :: mid ++ [conv])
      else if 60 ≤ mid.countP (· ∉ ascii "lhzjt") then .overrun
      else .integer (PERCENT :: mid.filter (· ∉ ascii "lhzjt") ++ ascii "ll" ++ [conv]) := by
  obtain ⟨hnormalized, hlength⟩ := normalizedSpec_spec mid conv
  have hshort : (PERCENT :: mid ++ [conv]).length < 64 ↔ ¬ 62 ≤ mid.length := by
    simp only [List.cons_append, List.length_cons, List.length_append, List.length_nil]
    omega
  have hfloat : isFloatConv conv = true ↔ conv ∈ ascii "fFeEgGaA" := List.contains_iff_mem
  have hrejected := specRejected_iff hmid hconv
  have hwide : specWidth mid > 4096 ↔ TooWide mid := by rw [specWidth_eq]; rfl
  have hflow : (normalizedSpec mid conv).length ≥ 64 ↔ 60 ≤ mid.countP (· ∉ ascii "lhzjt") := by
    omega
  simp only [specFate, hshort, hrejected, hwide, hfloat, hflow, ite_not]
  rw [hnormalized]
  split
  · rfl
  · by_cases hbarred : Barred mid conv
    · rw [if_pos hbarred, if_pos (.inl hbarred)]
    · rw [if_neg hbarred]
      by_cases htooWide : TooWide mid
      · rw [if_pos htooWide, if_pos (.inr htooWide)]
      · rw [if_neg htooWide, if_neg (not_or.mpr ⟨hbarred, htooWide⟩)]
        rfl

theorem addFormatted_specs {A : Type} (st : JsonfState A) (text : Option Bytes) :
    (st.addFormatted text).specs = st.specs := by
  unfold JsonfState.addFormatted
  split
  · rfl
  · rfl

/-- What a piece does, whatever the arguments and `snprintf`. -/
inductive StepSpec {A : Type} (st : JsonfState A) (piece : JsonfPiece) : JsonfStep A → Prop where
  | refuse (h : piece.Stops) : StepSpec st piece .refuse
  | overrun (hstops : ¬ piece.Stops) (h : piece.Overflows) : StepSpec st piece .overrun
  | go (hstops : ¬ piece.Stops) (hoverflows : ¬ piece.Overflows) {st' : JsonfState A}
      (hspecs : st'.specs = st.specs ++ piece.handed.toList) : StepSpec st piece (.go st')

theorem stepSpec {A D : Type} (env : JsonfEnv A D) (st : JsonfState A) {f rest : Bytes}
    {piece : JsonfPiece} (hat : PieceAt f piece rest) :
    StepSpec st piece (jsonfStep env st piece) := by
  cases hat with
  | byte | percent | string | cutString | char => exact .go id id (List.append_nil _).symm
  | star | unfinished => exact .refuse trivial
  | @spec mid rest conv hmid hconv =>
      simp only [jsonfStep, specStep, specFate_spec hmid hconv]
      by_cases hlong : 62 ≤ mid.length
      · rw [if_pos hlong]
        refine .go (fun h => ?_) (fun h => ?_) (by simp [JsonfPiece.handed, hlong])
        · exact Nat.not_lt.mpr hlong h.1
        · exact Nat.not_lt.mpr hlong h.1
      have hshort := Nat.not_le.mp hlong
      rw [if_neg hlong]
      by_cases hbad : Barred mid conv ∨ TooWide mid
      · rw [if_pos hbad]
        exact .refuse ⟨hshort, hbad⟩
      have hstops : ¬ (JsonfPiece.spec mid conv).Stops := fun h => hbad h.2
      rw [if_neg hbad]
      by_cases hfloat : conv ∈ ascii "fFeEgGaA"
      · have hoverflows : ¬ (JsonfPiece.spec mid conv).Overflows := fun h => h.2.1 hfloat
        rw [if_pos hfloat]
        by_cases hlongDouble : 76 ∈ mid
        · rw [if_pos hlongDouble]
          refine .go hstops hoverflows ?_
          simp [JsonfPiece.handed, hlong, hfloat, hlongDouble, addFormatted_specs]
        · rw [if_neg hlongDouble]
          refine .go hstops hoverflows ?_
          simp [JsonfPiece.handed, hlong, hfloat, hlongDouble, addFormatted_specs]
      · rw [if_neg hfloat]
        by_cases hflow : 60 ≤ mid.countP (· ∉ ascii "lhzjt")
        · rw [if_pos hflow]
          exact .overrun hstops ⟨hshort, hfloat, hflow⟩
        · rw [if_neg hflow]
          refine .go hstops (fun h => hflow h.2.2) ?_
          simp [JsonfPiece.handed, hlong, hfloat, addFormatted_specs]

-- ============================================================================
-- The whole format
-- ============================================================================

/-- A run is refused, and `snprintf` gets nothing that it may not get, exactly
    when the format comes to a stop. -/
theorem jsonfLoop_refused_iff {A D : Type} (Safe : Bytes → Prop) (env : JsonfEnv A D) (f : Bytes)
    (st : JsonfState A) :
    ((jsonfLoop env f st).1 = .refused ∧ ∀ spec ∈ (jsonfLoop env f st).2.specs, Safe spec) ↔
      (∀ spec ∈ st.specs, Safe spec) ∧ ComesToStop Safe f := by
  induction hlen : f.length using Nat.strongRecOn generalizing f st with
  | ind n ih =>
      cases hnext : nextPiece f with
      | none =>
          rw [eq_nil_of_nextPiece hnext, jsonfLoop_nil]
          simp [not_comesToStop_nil]
      | some next =>
          obtain ⟨piece, rest⟩ := next
          have hlt := length_nextPiece hnext
          have hat := nextPiece_iff.mp hnext
          rw [jsonfLoop_of_next hnext, comesToStop_iff hat]
          have hstep := stepSpec env st hat
          generalize jsonfStep env st piece = step at hstep
          cases hstep with
          | refuse hstops => simp [hstops]
          | overrun hstops hoverflows =>
              have hpasses : ¬ piece.Passes Safe := fun h => h.fits hoverflows
              simp [hstops, hpasses]
          | @go hstops hoverflows st' hspecs =>
              dsimp only
              rw [ih rest.length (by omega) rest st' rfl, hspecs]
              simp only [List.forall_mem_append, Option.mem_toList, hstops, false_or]
              constructor
              · rintro ⟨⟨hbefore, hhanded⟩, hrest⟩
                exact ⟨hbefore, ⟨hoverflows, hhanded⟩, hrest⟩
              · rintro ⟨hbefore, hpasses, hrest⟩
                exact ⟨⟨hbefore, hpasses.handed⟩, hrest⟩

theorem mnetJsonfv_eq_null {A D : Type} (env : JsonfEnv A D) (f : Bytes) (args : A) :
    mnetJsonfv env (some f) args = some jsonfNull ↔
      (jsonfLoop env f { args := args }).1 = .refused := by
  rcases hloop : jsonfLoop env f { args := args } with ⟨verdict, st⟩
  cases verdict with
  | finished =>
      have hne : some (jsonfResponse st.buf) ≠ some jsonfNull := by
        intro h
        have hstatus : (200 : Int) = 500 := congrArg MnetResponse.status (Option.some.inj h)
        exact absurd hstatus (by decide)
      simp [mnetJsonfv, hloop, hne]
  | refused => simp [mnetJsonfv, hloop]
  | overrun => simp [mnetJsonfv, hloop]

end Mnet
