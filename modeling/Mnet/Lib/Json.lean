/-
  Mnet.Lib.Json

  JSON documents as bytes: a reader in two steps, tokens and then their
  structure, and what it makes of a document written out.

  Documents and tokens are over any type of strings and of numbers; `read` gives
  them as byte strings and decimal numbers.  A `Spelling` says how strings and
  numbers of other types are written, with the proof that they are read back:
  then a document written with any spaces between its tokens is read back
  (`read_row`).
-/

import Mathlib.Data.List.Chain
import Mnet.Lib.JsonString
import Mnet.Lib.Numerals
import Mnet.Lib.Tokens

namespace Json

abbrev Text := List UInt8

variable {σ ν σ' ν' : Type}

-- ============================================================================
-- Tokens and documents
-- ============================================================================

inductive Token (σ ν : Type) where
  | openArray | closeArray | openObject | closeObject | comma | colon | null
  | bool (b : Bool)
  | string (s : σ)
  | number (n : ν)
deriving DecidableEq, Repr

namespace Token

def map (f : σ → σ') (g : ν → ν') : Token σ ν → Token σ' ν'
  | openArray => openArray
  | closeArray => closeArray
  | openObject => openObject
  | closeObject => closeObject
  | comma => comma
  | colon => colon
  | null => null
  | bool b => bool b
  | string s => string (f s)
  | number n => number (g n)

def isNumber : Token σ ν → Bool
  | number _ => true
  | _ => false

end Token

/-- A JSON value; the members of an object in their order. -/
inductive Doc (σ ν : Type) where
  | null
  | bool (b : Bool)
  | string (s : σ)
  | number (n : ν)
  | array (items : List (Doc σ ν))
  | object (members : List (σ × Doc σ ν))

/-- Lists with a comma between them. -/
def separate : List (List (Token σ ν)) → List (Token σ ν)
  | [] => []
  | x :: xs => x ++ xs.flatMap (Token.comma :: ·)

namespace Doc

theorem sizeOf_item_lt {d : Doc σ ν} {items : List (Doc σ ν)} (h : d ∈ items) :
    sizeOf d < sizeOf (array items) := by
  have hmem := List.sizeOf_lt_of_mem h
  rw [array.sizeOf_spec]
  omega

theorem sizeOf_member_lt {m : σ × Doc σ ν} {members : List (σ × Doc σ ν)} (h : m ∈ members) :
    sizeOf m.2 < sizeOf (object members) := by
  have hmem := List.sizeOf_lt_of_mem h
  have hpair : sizeOf m = 1 + sizeOf m.1 + sizeOf m.2 := rfl
  rw [object.sizeOf_spec]
  omega

/-- Induction over the values inside a value. -/
@[elab_as_elim]
theorem induct {p : Doc σ ν → Prop} (null : p .null) (bool : ∀ b, p (.bool b))
    (string : ∀ s, p (.string s)) (number : ∀ n, p (.number n))
    (array : ∀ items, (∀ d ∈ items, p d) → p (.array items))
    (object : ∀ members, (∀ m ∈ members, p m.2) → p (.object members)) : ∀ d, p d
  | .null => null
  | .bool b => bool b
  | .string s => string s
  | .number n => number n
  | .array items => array items fun d _ => induct null bool string number array object d
  | .object members => object members fun m _ => induct null bool string number array object m.2
termination_by d => d
decreasing_by
  · exact sizeOf_item_lt ‹_›
  · exact sizeOf_member_lt ‹_›

def map (f : σ → σ') (g : ν → ν') : Doc σ ν → Doc σ' ν'
  | null => null
  | bool b => bool b
  | string s => string (f s)
  | number n => number (g n)
  | array items => array (items.map fun d => d.map f g)
  | object members => object (members.attach.map fun m => (f m.1.1, m.1.2.map f g))
termination_by d => d
decreasing_by
  · exact sizeOf_item_lt ‹_›
  · exact sizeOf_member_lt m.2

/-- The tokens of a value, from left to right. -/
def tokens : Doc σ ν → List (Token σ ν)
  | null => [.null]
  | bool b => [.bool b]
  | string s => [.string s]
  | number n => [.number n]
  | array items => .openArray :: (separate (items.map fun d => d.tokens) ++ [.closeArray])
  | object members =>
      .openObject ::
        (separate (members.attach.map fun m => .string m.1.1 :: .colon :: m.1.2.tokens) ++
          [.closeObject])
termination_by d => d
decreasing_by
  · exact sizeOf_item_lt ‹_›
  · exact sizeOf_member_lt m.2

theorem map_object (f : σ → σ') (g : ν → ν') (members : List (σ × Doc σ ν)) :
    (object members).map f g = object (members.map fun m => (f m.1, m.2.map f g)) := by
  rw [map, List.attach_map_val (f := fun m : σ × Doc σ ν => (f m.1, m.2.map f g))]

theorem tokens_array (items : List (Doc σ ν)) :
    (array items).tokens = .openArray :: (separate (items.map tokens) ++ [.closeArray]) := by
  rw [tokens]

/-- The tokens of a member. -/
def memberTokens (m : σ × Doc σ ν) : List (Token σ ν) := .string m.1 :: .colon :: m.2.tokens

@[simp] theorem length_memberTokens (m : σ × Doc σ ν) :
    (memberTokens m).length = m.2.tokens.length + 2 := rfl

theorem tokens_object (members : List (σ × Doc σ ν)) :
    (object members).tokens =
      .openObject :: (separate (members.map memberTokens) ++ [.closeObject]) := by
  rw [tokens,
    List.attach_map_val (f := fun m : σ × Doc σ ν => .string m.1 :: .colon :: m.2.tokens)]
  rfl

end Doc

-- ============================================================================
-- The structure of a row of tokens
-- ============================================================================

/-- What stands between commas from here on, up to the closing token; the number
    bounds how many there are. -/
def readList {α : Type} (isClose : Token σ ν → Bool)
    (one : List (Token σ ν) → Option (α × List (Token σ ν))) :
    Nat → List (Token σ ν) → Option (List α × List (Token σ ν))
  | 0, _ => none
  | n + 1, ts =>
      match one ts with
      | some (a, .comma :: ts) => (readList isClose one n ts).map fun (as, ts) => (a :: as, ts)
      | some (a, t :: ts) => if isClose t then some ([a], ts) else none
      | _ => none

/-- A key, a colon and a value. -/
def readMember (one : List (Token σ ν) → Option (Doc σ ν × List (Token σ ν))) :
    List (Token σ ν) → Option ((σ × Doc σ ν) × List (Token σ ν))
  | .string key :: .colon :: ts => (one ts).map fun (d, ts) => ((key, d), ts)
  | _ => none

def Token.isCloseArray : Token σ ν → Bool
  | closeArray => true
  | _ => false

def Token.isCloseObject : Token σ ν → Bool
  | closeObject => true
  | _ => false

/-- The value a row of tokens begins with, and what follows it; the number bounds
    how many tokens are looked at. -/
def readDoc : Nat → List (Token σ ν) → Option (Doc σ ν × List (Token σ ν))
  | 0, _ => none
  | n + 1, ts =>
      match ts with
      | .null :: ts => some (.null, ts)
      | .bool b :: ts => some (.bool b, ts)
      | .string s :: ts => some (.string s, ts)
      | .number m :: ts => some (.number m, ts)
      | .openArray :: .closeArray :: ts => some (.array [], ts)
      | .openArray :: ts =>
          (readList Token.isCloseArray (readDoc n) n ts).map fun (items, ts) => (.array items, ts)
      | .openObject :: .closeObject :: ts => some (.object [], ts)
      | .openObject :: ts =>
          (readList Token.isCloseObject (readMember (readDoc n)) n ts).map
            fun (members, ts) => (.object members, ts)
      | _ => none

/-- The value a whole row of tokens is. -/
def document (ts : List (Token σ ν)) : Option (Doc σ ν) :=
  match readDoc ts.length ts with
  | some (d, []) => some d
  | _ => none

theorem length_le_separate {α : Type} {write : α → List (Token σ ν)} (items : List α)
    (hne : ∀ a ∈ items, write a ≠ []) :
    items.length ≤ (separate (items.map write)).length ∧
      ∀ a ∈ items, (write a).length ≤ (separate (items.map write)).length := by
  have htail : ∀ items : List α, items.length ≤ ((items.map write).flatMap (.comma :: ·)).length ∧
      ∀ a ∈ items, (write a).length ≤ ((items.map write).flatMap (.comma :: ·)).length := by
    intro items
    induction items with
    | nil => exact ⟨Nat.le_refl _, nofun⟩
    | cons a items ih =>
        rw [List.map_cons, List.flatMap_cons, List.length_append, List.length_cons,
          List.length_cons]
        refine ⟨by omega, List.forall_mem_cons.mpr ⟨by omega, fun a' ha' => ?_⟩⟩
        have hle := ih.2 a' ha'
        omega
  cases items with
  | nil => exact ⟨Nat.le_refl _, nofun⟩
  | cons a items =>
      obtain ⟨hcount, hall⟩ := htail items
      have hpos := List.length_pos_iff.mpr (hne a (List.mem_cons_self ..))
      rw [List.map_cons, separate, List.length_append, List.length_cons]
      refine ⟨by omega, List.forall_mem_cons.mpr ⟨by omega, fun a' ha' => ?_⟩⟩
      have hle := hall a' ha'
      omega

/-- What is written with commas between is read up to the closing token. -/
theorem readList_separate {α : Type} {isClose : Token σ ν → Bool}
    {one : List (Token σ ν) → Option (α × List (Token σ ν))} {write : α → List (Token σ ν)}
    {close : Token σ ν} (hclose : isClose close = true) (hcomma : close ≠ .comma)
    {a : α} {items : List α}
    (hone : ∀ a' ∈ a :: items, ∀ rest, one (write a' ++ rest) = some (a', rest)) {n : Nat}
    (hn : items.length < n) (rest : List (Token σ ν)) :
    readList isClose one n (separate ((a :: items).map write) ++ close :: rest) =
      some (a :: items, rest) := by
  induction items generalizing a n with
  | nil =>
      obtain ⟨n, rfl⟩ : ∃ k, n = k + 1 := ⟨n - 1, by omega⟩
      rw [List.map_singleton, separate, List.flatMap_nil, List.append_nil, readList,
        hone a (List.mem_singleton_self a)]
      cases close with
      | comma => exact absurd rfl hcomma
      | _ => exact if_pos hclose
  | cons a' items ih =>
      obtain ⟨n, rfl⟩ : ∃ k, n = k + 1 := ⟨n - 1, by omega⟩
      obtain ⟨hfirst, hothers⟩ := List.forall_mem_cons.mp hone
      have hsplit : separate ((a :: a' :: items).map write) ++ close :: rest =
          write a ++ .comma :: (separate ((a' :: items).map write) ++ close :: rest) := by
        simp only [List.map_cons, separate, List.flatMap_cons, List.append_assoc,
          List.cons_append]
      rw [hsplit, readList, hfirst]
      show (readList isClose one n (separate ((a' :: items).map write) ++ close :: rest)).map _ = _
      rw [ih hothers (by rw [List.length_cons] at hn; omega)]
      rfl

/-- A value does not begin with a token that ends one. -/
theorem exists_tokens_eq (d : Doc σ ν) :
    ∃ t ts, d.tokens = t :: ts ∧ t.isCloseArray = false := by
  cases d with
  | array items => exact ⟨_, _, Doc.tokens_array items, rfl⟩
  | object members => exact ⟨_, _, Doc.tokens_object members, rfl⟩
  | _ => rw [Doc.tokens]; exact ⟨_, _, rfl, rfl⟩

theorem tokens_ne_nil (d : Doc σ ν) : d.tokens ≠ [] := by
  obtain ⟨t, ts, htokens, -⟩ := exists_tokens_eq d
  rw [htokens]
  exact List.cons_ne_nil _ _

/-- A value's tokens are read as it. -/
theorem readDoc_tokens (d : Doc σ ν) {n : Nat} (hn : d.tokens.length ≤ n)
    (rest : List (Token σ ν)) : readDoc n (d.tokens ++ rest) = some (d, rest) := by
  induction d using Doc.induct generalizing n rest with
  | array items ih =>
      rw [Doc.tokens_array] at hn ⊢
      obtain ⟨n, rfl⟩ : ∃ k, n = k + 1 := ⟨n - 1, by rw [List.length_cons] at hn; omega⟩
      rw [List.length_cons, List.length_append, List.length_singleton] at hn
      obtain ⟨hcount, hall⟩ := length_le_separate items fun d _ => tokens_ne_nil d
      cases items with
      | nil => rfl
      | cons d items =>
          have hitems : ∀ d' ∈ d :: items, ∀ rest, readDoc n (d'.tokens ++ rest) = some (d', rest) := by
            intro d' hd' rest
            have hle := hall d' hd'
            exact ih d' hd' (by omega) rest
          have hlt : items.length < n := by
            rw [List.length_cons] at hcount
            omega
          have hread := readList_separate (rfl : Token.isCloseArray .closeArray = true) nofun hitems
            hlt rest
          -- the first token is not the end of the array
          obtain ⟨t, ts, htokens, ht⟩ := exists_tokens_eq d
          have hfirst : separate ((d :: items).map Doc.tokens) ++ .closeArray :: rest =
              t :: (ts ++ ((items.map Doc.tokens).flatMap (.comma :: ·) ++ .closeArray :: rest)) := by
            rw [List.map_cons, separate, htokens]
            simp only [List.cons_append, List.append_assoc]
          rw [hfirst] at hread
          rw [List.cons_append, List.append_assoc, List.singleton_append, hfirst]
          cases t with
          | closeArray => exact Bool.noConfusion ht
          | _ =>
              rw [readDoc]
              · rw [hread]
                rfl
              · simp
  | object members ih =>
      rw [Doc.tokens_object] at hn ⊢
      obtain ⟨n, rfl⟩ : ∃ k, n = k + 1 := ⟨n - 1, by rw [List.length_cons] at hn; omega⟩
      rw [List.length_cons, List.length_append, List.length_singleton] at hn
      obtain ⟨hcount, hall⟩ := @length_le_separate _ _ _ Doc.memberTokens members
        fun m _ => List.cons_ne_nil _ _
      cases members with
      | nil => rfl
      | cons m members =>
          have hmembers : ∀ m' ∈ m :: members, ∀ rest,
              readMember (readDoc n) (Doc.memberTokens m' ++ rest) = some (m', rest) := by
            intro m' hm' rest
            have hle := hall m' hm'
            rw [Doc.length_memberTokens] at hle
            show (readDoc n (m'.2.tokens ++ rest)).map _ = _
            rw [ih m' hm' (by omega)]
            rfl
          have hlt : members.length < n := by
            rw [List.length_cons] at hcount
            omega
          have hread := readList_separate (rfl : Token.isCloseObject .closeObject = true) nofun
            hmembers hlt rest
          have hfirst : separate ((m :: members).map Doc.memberTokens) ++ .closeObject :: rest =
              .string m.1 :: (.colon :: m.2.tokens ++
                ((members.map Doc.memberTokens).flatMap (.comma :: ·) ++ .closeObject :: rest)) := by
            rw [List.map_cons, separate, Doc.memberTokens]
            simp only [List.cons_append, List.append_assoc]
          rw [hfirst] at hread
          rw [List.cons_append, List.append_assoc, List.singleton_append, hfirst]
          show (readList Token.isCloseObject (readMember (readDoc n)) n _).map _ = _
          rw [hread]
          rfl
  | _ =>
      rw [Doc.tokens] at hn ⊢
      obtain ⟨n, rfl⟩ : ∃ k, n = k + 1 := ⟨n - 1, by rw [List.length_cons] at hn; omega⟩
      rfl

theorem document_tokens (d : Doc σ ν) : document d.tokens = some d := by
  have hread := readDoc_tokens d (Nat.le_refl _) []
  rw [List.append_nil] at hread
  rw [document, hread]

/-- The same document with other contents has the same tokens with those. -/
theorem tokens_map (f : σ → σ') (g : ν → ν') (d : Doc σ ν) :
    (d.map f g).tokens = d.tokens.map (Token.map f g) := by
  have hseparate : ∀ lists : List (List (Token σ ν)),
      (separate lists).map (Token.map f g) = separate (lists.map (List.map (Token.map f g))) := by
    intro lists
    cases lists with
    | nil => rfl
    | cons x xs =>
        rw [separate, List.map_append, List.map_flatMap, List.map_cons, separate, List.flatMap_map]
        rfl
  induction d using Doc.induct with
  | array items ih =>
      rw [Doc.map, Doc.tokens_array, Doc.tokens_array, List.map_cons, List.map_append, hseparate,
        List.map_map, List.map_map]
      have hitems : items.map (Doc.tokens ∘ fun d => d.map f g) =
          items.map (List.map (Token.map f g) ∘ Doc.tokens) := List.map_congr_left ih
      rw [hitems]
      rfl
  | object members ih =>
      rw [Doc.map_object, Doc.tokens_object, Doc.tokens_object, List.map_cons, List.map_append,
        hseparate, List.map_map, List.map_map]
      have hmembers : members.map (Doc.memberTokens ∘ fun m => (f m.1, m.2.map f g)) =
          members.map (List.map (Token.map f g) ∘ Doc.memberTokens) := by
        refine List.map_congr_left fun m hm => ?_
        show _ :: _ :: (m.2.map f g).tokens = _ :: _ :: m.2.tokens.map (Token.map f g)
        rw [ih m hm]
        rfl
      rw [hmembers]
      rfl
  | _ => rw [Doc.map, Doc.tokens, Doc.tokens]; rfl

-- ============================================================================
-- Numbers
-- ============================================================================

/-- `mantissa · 10 ^ exponent`. -/
structure Number where
  mantissa : Int
  exponent : Int := 0
deriving DecidableEq, Repr

def isDigit (b : UInt8) : Bool := 48 ≤ b && b ≤ 57

/-- A byte a number is written with: a digit, a sign, the dot, `E` or `e`. -/
def isNumberByte (b : UInt8) : Bool :=
  isDigit b || b == 43 || b == 45 || b == 46 || b == 69 || b == 101

def digitsNumber (ds : Text) : Nat := ds.foldl (fun n b => n * 10 + (b.toNat - 48)) 0

/-- The digits behind a dot; no dot, no digits. -/
def readFraction (s : Text) : Option (Text × Text) :=
  if s.head? = some 46 then
    if s.tail.takeWhile isDigit = [] then none
    else some (s.tail.takeWhile isDigit, s.tail.dropWhile isDigit)
  else some ([], s)

/-- The exponent a number ends with; an empty text is the exponent 0. -/
def readExponent (s : Text) : Option Int :=
  if s = [] then some 0
  else if s.head? = some 69 ∨ s.head? = some 101 then
    let signed := s.tail.head? = some 43 ∨ s.tail.head? = some 45
    let digits := if signed then s.tail.tail else s.tail
    if digits = [] ∨ digits.all isDigit = false then none
    else if s.tail.head? = some 45 then some (-digitsNumber digits)
    else some (digitsNumber digits)
  else none

/-- The number a text is.  A whole part of more than one digit does not begin
    with a 0. -/
def parseNumber (s : Text) : Option Number :=
  let unsigned := if s.head? = some 45 then s.tail else s
  let whole := unsigned.takeWhile isDigit
  if whole = [] ∨ whole.head? = some 48 ∧ whole.tail ≠ [] then none
  else
    match readFraction (unsigned.dropWhile isDigit) with
    | none => none
    | some (fraction, s') =>
        (readExponent s').map fun e =>
          let m : Int := digitsNumber (whole ++ fraction)
          { mantissa := if s.head? = some 45 then -m else m, exponent := e - fraction.length }

/-- The decimal text of an integer. -/
def integerText (v : Int) : Text :=
  (if v < 0 then [45] else []) ++ (Nat.toDigits 10 v.natAbs).map Char.toUInt8

theorem digit_of_lt {d : Nat} (h : d < 10) :
    isDigit (Nat.digitChar d).toUInt8 = true ∧ (Nat.digitChar d).toUInt8.toNat - 48 = d := by
  revert d
  decide

/-- A number that is not 0 does not begin with the digit 0. -/
theorem head?_toDigits {n : Nat} (hn : 0 < n) :
    ((Nat.toDigits 10 n).map Char.toUInt8).head? ≠ some 48 := by
  induction n using Nat.strongRecOn with
  | ind n ih =>
      by_cases hlt : n < 10
      · rw [Nat.toDigits_of_lt_base hlt]
        have hall : ∀ d < 10, 0 < d →
            ([Nat.digitChar d].map Char.toUInt8).head? ≠ some 48 := by decide
        exact hall n hlt hn
      · rw [Nat.toDigits_of_base_le (by decide) (by omega), List.map_append,
          List.head?_append_of_ne_nil _ (by simp [Nat.toDigits_ne_nil])]
        exact ih (n / 10) (by omega) (by omega)

theorem digits_toDigits (n : Nat) :
    ((Nat.toDigits 10 n).map Char.toUInt8).all isDigit = true := by
  rw [List.all_map, List.all_eq_true]
  exact Numerals.forall_mem_toDigits (by decide) (fun d hd => (digit_of_lt hd).1) n

theorem digitsNumber_toDigits (n : Nat) :
    digitsNumber ((Nat.toDigits 10 n).map Char.toUInt8) = n := by
  have hread := @Numerals.readFrom_toDigits UInt8 (fun b => some (b.toNat - 48)) 10 Char.toUInt8
    (fun d hd => congrArg some (digit_of_lt hd).2) (by decide) n
  rw [Numerals.readFrom_eq_foldl fun _ _ => rfl] at hread
  exact Option.some.inj hread

/-- An integer's text is the number it is. -/
theorem parseNumber_integerText (v : Int) :
    parseNumber (integerText v) = some { mantissa := v } := by
  have hdigits := digits_toDigits v.natAbs
  have hnumber := digitsNumber_toDigits v.natAbs
  have hne : (Nat.toDigits 10 v.natAbs).map Char.toUInt8 ≠ [] := by simp [Nat.toDigits_ne_nil]
  have hwhole : ¬ ((Nat.toDigits 10 v.natAbs).map Char.toUInt8 = [] ∨
      ((Nat.toDigits 10 v.natAbs).map Char.toUInt8).head? = some 48 ∧
        ((Nat.toDigits 10 v.natAbs).map Char.toUInt8).tail ≠ []) := by
    rintro (h | ⟨hzero, htail⟩)
    · exact hne h
    · rcases Nat.eq_zero_or_pos v.natAbs with h | h
      · rw [h] at htail
        exact htail rfl
      · exact head?_toDigits h hzero
  have hsign : ((Nat.toDigits 10 v.natAbs).map Char.toUInt8).head? ≠ some 45 := by
    intro h
    exact absurd (List.all_eq_true.mp hdigits 45 (List.mem_of_head? h)) (by decide)
  generalize hds : (Nat.toDigits 10 v.natAbs).map Char.toUInt8 = ds at *
  have hcut := Tokens.takeWhile_dropWhile_append hdigits (t := []) nofun
  rw [List.append_nil] at hcut
  have hvalue : (if v < 0 then -(digitsNumber ds : Int) else digitsNumber ds) = v := by
    rw [hnumber]
    split <;> omega
  rw [integerText, hds]
  by_cases hneg : v < 0
  · rw [if_pos hneg] at hvalue ⊢
    simp only [parseNumber, List.singleton_append, List.head?_cons, if_true, List.tail_cons, hcut,
      if_neg hwhole, readFraction, readExponent]
    simp [hvalue]
  · rw [if_neg hneg] at hvalue ⊢
    simp only [parseNumber, List.nil_append, if_neg hsign, hcut, if_neg hwhole, readFraction,
      readExponent]
    simp [hvalue]

theorem numberBytes_integerText (v : Int) : (integerText v).all isNumberByte = true := by
  have hdigits : ((Nat.toDigits 10 v.natAbs).map Char.toUInt8).all isNumberByte = true := by
    refine List.all_eq_true.mpr fun b hb => ?_
    rw [isNumberByte, List.all_eq_true.mp (digits_toDigits _) b hb]
    rfl
  rw [integerText, List.all_append, hdigits, Bool.and_true]
  split <;> rfl

-- ============================================================================
-- Tokens of a text
-- ============================================================================

/-- Space, tab, line feed or carriage return. -/
def isSpace (b : UInt8) : Bool := b == 32 || b == 9 || b == 10 || b == 13

/-- The token one byte is. -/
def punctuation? (b : UInt8) : Option (Token σ ν) :=
  if b = 91 then some .openArray
  else if b = 93 then some .closeArray
  else if b = 123 then some .openObject
  else if b = 125 then some .closeObject
  else if b = 44 then some .comma
  else if b = 58 then some .colon
  else none

/-- One of the three words. -/
def readWord : Text → Option (Token σ ν × Text)
  | 110 :: 117 :: 108 :: 108 :: s => some (.null, s)
  | 116 :: 114 :: 117 :: 101 :: s => some (.bool true, s)
  | 102 :: 97 :: 108 :: 115 :: 101 :: s => some (.bool false, s)
  | _ => none

/-- The token a text begins with, and what follows it. -/
def lexToken : Text → Option (Token Text Number × Text)
  | [] => none
  | b :: s =>
      match punctuation? b with
      | some t => some (t, s)
      | none =>
          if b = 34 then (JsonString.read s).map fun (text, rest) => (.string text, rest)
          else if isNumberByte b then
            (parseNumber ((b :: s).takeWhile isNumberByte)).map fun n =>
              (.number n, (b :: s).dropWhile isNumberByte)
          else readWord (b :: s)

theorem length_readWord {s rest : Text} {t : Token σ ν} (h : readWord s = some (t, rest)) :
    rest.length < s.length := by
  unfold readWord at h
  split at h
  case h_4 => exact absurd h (by simp)
  all_goals
    obtain ⟨-, rfl⟩ := Prod.mk.inj (Option.some.inj h)
    simp only [List.length_cons]
    omega

theorem length_lexToken {s rest : Text} {t : Token Text Number}
    (h : lexToken s = some (t, rest)) : rest.length < s.length := by
  unfold lexToken at h
  split at h
  · exact absurd h (by simp)
  · next b s =>
    split at h
    · obtain ⟨-, rfl⟩ := Prod.mk.inj (Option.some.inj h)
      exact Nat.lt_succ_self _
    · split at h
      · obtain ⟨⟨text, rest'⟩, hread, heq⟩ := Option.map_eq_some_iff.mp h
        obtain ⟨-, rfl⟩ := Prod.mk.inj heq
        exact Nat.lt_succ_of_lt (JsonString.length_read hread)
      · split at h
        · next hb =>
          obtain ⟨n, -, heq⟩ := Option.map_eq_some_iff.mp h
          obtain ⟨-, rfl⟩ := Prod.mk.inj heq
          rw [List.dropWhile_cons_of_pos hb]
          exact Nat.lt_succ_of_le (List.dropWhile_suffix _).length_le
        · exact length_readWord h

/-- The tokens of a text; spaces may stand before each and behind the last. -/
def lex (s : Text) : Option (List (Token Text Number)) :=
  match _h : s.dropWhile isSpace with
  | [] => some []
  | b :: s' =>
      match _h' : lexToken (b :: s') with
      | none => none
      | some (t, rest) => (lex rest).map (t :: ·)
termination_by s.length
decreasing_by
  have hle := (List.dropWhile_suffix isSpace (l := s)).length_le
  have hlt := length_lexToken _h'
  rw [_h] at hle
  omega

/-- The value a text is. -/
def read (s : Text) : Option (Doc Text Number) := (lex s).bind document

-- ============================================================================
-- Documents written out
-- ============================================================================

/-- How strings and numbers are written: the inside of a literal, and the text
    of a number, with what they are read as. -/
structure Spelling (σ ν : Type) where
  string : σ → Text
  stringValue : σ → Text
  number : ν → Text
  numberValue : ν → Number
  reads_string : ∀ s rest, JsonString.read (string s ++ 34 :: rest) = some (stringValue s, rest)
  reads_number : ∀ n, parseNumber (number n) = some (numberValue n)
  number_bytes : ∀ n, (number n).all isNumberByte = true

namespace Spelling

variable (sp : Spelling σ ν)

def token : Token σ ν → Text
  | .openArray => [91]
  | .closeArray => [93]
  | .openObject => [123]
  | .closeObject => [125]
  | .comma => [44]
  | .colon => [58]
  | .null => [110, 117, 108, 108]
  | .bool true => [116, 114, 117, 101]
  | .bool false => [102, 97, 108, 115, 101]
  | .string s => 34 :: (sp.string s ++ [34])
  | .number n => sp.number n

/-- Tokens in a row, each behind its own spaces. -/
def row (ts : List (Text × Token σ ν)) : Text := ts.flatMap fun t => t.1 ++ sp.token t.2

end Spelling

theorem parseNumber_nil : parseNumber [] = none := rfl

variable (sp : Spelling σ ν)

theorem exists_number_eq (n : ν) : ∃ b s, sp.number n = b :: s ∧ isNumberByte b = true := by
  have hbytes := sp.number_bytes n
  have hreads := sp.reads_number n
  cases h : sp.number n with
  | nil =>
      rw [h, parseNumber_nil] at hreads
      exact absurd hreads (by simp)
  | cons b s =>
      rw [h, List.all_cons, Bool.and_eq_true] at hbytes
      exact ⟨b, s, rfl, hbytes.1⟩

/-- A byte a number begins with begins no other token. -/
theorem not_punctuation {b : UInt8} (hb : isNumberByte b = true) :
    (punctuation? b : Option (Token σ ν)) = none ∧ b ≠ 34 ∧ isSpace b = false := by
  have hne : ∀ c, isNumberByte c = false → b ≠ c := by
    rintro c hc rfl
    rw [hb] at hc
    exact Bool.noConfusion hc
  refine ⟨?_, hne 34 rfl, ?_⟩
  · rw [punctuation?, if_neg (hne 91 rfl), if_neg (hne 93 rfl), if_neg (hne 123 rfl),
      if_neg (hne 125 rfl), if_neg (hne 44 rfl), if_neg (hne 58 rfl)]
  · simp only [isSpace, Bool.or_eq_false_iff, beq_eq_false_iff_ne]
    exact ⟨⟨⟨hne 32 rfl, hne 9 rfl⟩, hne 10 rfl⟩, hne 13 rfl⟩

/-- A token's text begins with no space. -/
theorem exists_token_eq (t : Token σ ν) : ∃ b s, sp.token t = b :: s ∧ isSpace b = false := by
  cases t with
  | number n =>
      obtain ⟨b, s, hn, hb⟩ := exists_number_eq sp n
      exact ⟨b, s, hn, (@not_punctuation σ ν b hb).2.2⟩
  | bool b => cases b <;> exact ⟨_, _, rfl, rfl⟩
  | _ => exact ⟨_, _, rfl, rfl⟩

variable {sp}

/-- A token is read back, a number where no byte of a number follows it. -/
theorem lexToken_token {t : Token σ ν} {rest : Text}
    (hnext : t.isNumber = true → ∀ b ∈ rest.head?, isNumberByte b = false) :
    lexToken (sp.token t ++ rest) = some (t.map sp.stringValue sp.numberValue, rest) := by
  cases t with
  | string s =>
      have hread := sp.reads_string s rest
      show (JsonString.read ((sp.string s ++ [34]) ++ rest)).map _ = _
      rw [List.append_assoc, List.singleton_append, hread]
      rfl
  | number n =>
      obtain ⟨b, s, hn, hb⟩ := exists_number_eq sp n
      obtain ⟨hpunctuation, hquote, -⟩ := @not_punctuation Text Number b hb
      obtain ⟨htake, hdrop⟩ := Tokens.takeWhile_dropWhile_append (sp.number_bytes n) (hnext rfl)
      have htext : sp.token (.number n) ++ rest = b :: (s ++ rest) := by
        show sp.number n ++ rest = _
        rw [hn, List.cons_append]
      rw [hn, List.cons_append] at htake hdrop
      rw [htext, lexToken]
      simp only [hpunctuation, if_neg hquote, if_pos hb, htake, hdrop]
      rw [← hn, sp.reads_number n]
      rfl
  | bool b => cases b <;> rfl
  | _ => rfl

theorem lex_of_spaces {s : Text} (h : s.all isSpace = true) : lex s = some [] := by
  have hnone : s.dropWhile isSpace = [] := List.dropWhile_eq_nil_iff.mpr (List.all_eq_true.mp h)
  rw [lex]
  split
  · rfl
  · next heq => rw [hnone] at heq; exact absurd heq (by simp)

theorem lex_of_token {s s' rest : Text} {t : Token Text Number} (hskip : s.dropWhile isSpace = s')
    (htoken : lexToken s' = some (t, rest)) : lex s = (lex rest).map (t :: ·) := by
  conv_lhs => rw [lex]
  split
  · next heq =>
    rw [← hskip, heq] at htoken
    exact absurd htoken (by simp [lexToken])
  · next heq =>
    rw [← hskip, heq] at htoken
    split
    · next hnone => rw [hnone] at htoken; exact absurd htoken (by simp)
    · next hsome =>
      rw [hsome] at htoken
      obtain ⟨rfl, rfl⟩ := Prod.mk.inj (Option.some.inj htoken)
      rfl

/-- Not two numbers. -/
def Apart (t t' : Token σ ν) : Prop := t.isNumber = true → t'.isNumber = false

theorem not_numberByte_of_isSpace {b : UInt8} (hb : isSpace b = true) : isNumberByte b = false := by
  rw [Bool.eq_false_iff]
  intro hnumber
  rw [(@not_punctuation Text Number b hnumber).2.2] at hb
  exact Bool.noConfusion hb

/-- A text of tokens and spaces that does not begin with a number token does not
    begin with a byte of a number. -/
theorem head?_row {ts : List (Text × Token σ ν)} (hfirst : ∀ t ∈ ts.head?, t.2.isNumber = false)
    (hspaces : ∀ t ∈ ts, t.1.all isSpace = true) {trailing : Text}
    (htrailing : trailing.all isSpace = true) :
    ∀ b ∈ (sp.row ts ++ trailing).head?, isNumberByte b = false := by
  intro b hb
  cases ts with
  | nil =>
      have hmem : b ∈ trailing := List.mem_of_head? hb
      exact not_numberByte_of_isSpace (List.all_eq_true.mp htrailing b hmem)
  | cons t ts =>
      obtain ⟨ht, -⟩ := List.forall_mem_cons.mp hspaces
      obtain ⟨spaces, t⟩ := t
      cases spaces with
      | cons c spaces =>
          obtain rfl : c = b := Option.some.inj hb
          exact not_numberByte_of_isSpace
            (List.all_eq_true.mp ht c (List.mem_cons_self ..))
      | nil =>
          have hnot := hfirst _ rfl
          cases t with
          | number n => exact Bool.noConfusion hnot
          | bool v =>
              cases v
              all_goals
                obtain rfl := Option.some.inj hb
                rfl
          | _ =>
              obtain rfl := Option.some.inj hb
              rfl

/-- A row of tokens without two numbers side by side is read back. -/
theorem lex_row {ts : List (Text × Token σ ν)} (happart : (ts.map Prod.snd).IsChain Apart)
    (hspaces : ∀ t ∈ ts, t.1.all isSpace = true) {trailing : Text}
    (htrailing : trailing.all isSpace = true) :
    lex (sp.row ts ++ trailing) =
      some (ts.map fun t => t.2.map sp.stringValue sp.numberValue) := by
  induction ts with
  | nil => exact lex_of_spaces htrailing
  | cons t ts ih =>
      obtain ⟨ht, hts⟩ := List.forall_mem_cons.mp hspaces
      obtain ⟨b, s, htoken, hb⟩ := exists_token_eq sp t.2
      have hskip : (sp.row (t :: ts) ++ trailing).dropWhile isSpace =
          sp.token t.2 ++ (sp.row ts ++ trailing) := by
        have htext : sp.row (t :: ts) ++ trailing =
            t.1 ++ (sp.token t.2 ++ (sp.row ts ++ trailing)) := by
          simp only [Spelling.row, List.flatMap_cons, List.append_assoc]
        rw [htext]
        refine (Tokens.takeWhile_dropWhile_append ht ?_).2
        rw [htoken]
        intro c hc
        obtain rfl : b = c := Option.some.inj hc
        exact hb
      have hnext : t.2.isNumber = true → ∀ c ∈ (sp.row ts ++ trailing).head?,
          isNumberByte c = false := by
        intro hnumber
        refine head?_row (fun t' ht' => ?_) hts htrailing
        cases ts with
        | nil => exact absurd ht' (by simp)
        | cons u ts =>
            obtain rfl : u = t' := Option.some.inj ht'
            exact (List.isChain_cons_cons.mp happart).1 hnumber
      rw [lex_of_token hskip (lexToken_token hnext), ih happart.tail hts]
      rfl

-- ============================================================================
-- Numbers in a document
-- ============================================================================

theorem isChain_append_of_head {l l' : List (Token σ ν)} (h : l.IsChain Apart)
    (h' : l'.IsChain Apart) (hhead : ∀ t ∈ l'.head?, t.isNumber = false) :
    (l ++ l').IsChain Apart :=
  List.isChain_append.mpr ⟨h, h', fun _ _ t' ht' _ => hhead t' ht'⟩

theorem isChain_cons_of_not_number {t : Token σ ν} {l : List (Token σ ν)}
    (ht : t.isNumber = false) (h : l.IsChain Apart) : (t :: l).IsChain Apart := by
  refine List.isChain_cons.mpr ⟨fun t' _ hnumber => ?_, h⟩
  rw [ht] at hnumber
  exact Bool.noConfusion hnumber

/-- Behind a comma begins no number. -/
theorem isChain_separate {lists : List (List (Token σ ν))} (h : ∀ l ∈ lists, l.IsChain Apart) :
    (separate lists).IsChain Apart := by
  have htail : ∀ lists : List (List (Token σ ν)), (∀ l ∈ lists, l.IsChain Apart) →
      (lists.flatMap (.comma :: ·)).IsChain Apart ∧
        ∀ t ∈ (lists.flatMap (.comma :: ·)).head?, t.isNumber = false := by
    intro lists hlists
    induction lists with
    | nil => exact ⟨List.IsChain.nil, nofun⟩
    | cons l lists ih =>
        obtain ⟨hl, hlists⟩ := List.forall_mem_cons.mp hlists
        obtain ⟨hrest, hhead⟩ := ih hlists
        refine ⟨isChain_append_of_head (isChain_cons_of_not_number rfl hl) hrest hhead, ?_⟩
        intro t ht
        obtain rfl : .comma = t := Option.some.inj ht
        rfl
  cases lists with
  | nil => exact List.IsChain.nil
  | cons l lists =>
      obtain ⟨hl, hlists⟩ := List.forall_mem_cons.mp h
      obtain ⟨hrest, hhead⟩ := htail lists hlists
      exact isChain_append_of_head hl hrest hhead

/-- In the tokens of a value no two numbers stand side by side. -/
theorem isChain_tokens (d : Doc σ ν) : d.tokens.IsChain Apart := by
  have hclosed : ∀ (first last : Token σ ν) (lists : List (List (Token σ ν))),
      first.isNumber = false → last.isNumber = false → (∀ l ∈ lists, l.IsChain Apart) →
        (first :: (separate lists ++ [last])).IsChain Apart := by
    intro first last lists hfirst hlast hlists
    refine isChain_cons_of_not_number hfirst
      (isChain_append_of_head (isChain_separate hlists) (List.isChain_singleton _) ?_)
    intro t ht
    obtain rfl : last = t := Option.some.inj ht
    exact hlast
  induction d using Doc.induct with
  | array items ih =>
      rw [Doc.tokens_array]
      exact hclosed _ _ _ rfl rfl (List.forall_mem_map.mpr ih)
  | object members ih =>
      rw [Doc.tokens_object]
      refine hclosed _ _ _ rfl rfl (List.forall_mem_map.mpr fun m hm => ?_)
      exact isChain_cons_of_not_number rfl (isChain_cons_of_not_number rfl (ih m hm))
  | _ => rw [Doc.tokens]; exact List.isChain_singleton _

/-- A value written with any spaces around its tokens is read back, with what
    its strings and numbers stand for. -/
theorem read_row (d : Doc σ ν) {ts : List (Text × Token σ ν)} (hts : ts.map Prod.snd = d.tokens)
    (hspaces : ∀ t ∈ ts, t.1.all isSpace = true) {trailing : Text}
    (htrailing : trailing.all isSpace = true) :
    read (sp.row ts ++ trailing) = some (d.map sp.stringValue sp.numberValue) := by
  have hchain : (ts.map Prod.snd).IsChain Apart := hts ▸ isChain_tokens d
  have hmap : (ts.map fun t => t.2.map sp.stringValue sp.numberValue) =
      (d.map sp.stringValue sp.numberValue).tokens := by
    rw [tokens_map, ← hts, List.map_map]
    rfl
  rw [read, lex_row hchain hspaces htrailing, hmap]
  exact document_tokens _

end Json
