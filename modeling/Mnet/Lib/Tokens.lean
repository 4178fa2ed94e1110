/-
  Mnet.Lib.Tokens

  The maximal runs of non-delimiters of a list, as a `strtok_r` loop yields
  them, and where each of them starts.

  `tokens` follows the tokenizer: skip delimiters, take a run, go on behind
  it.  `starts` lists the offsets at which a run begins: positions that hold a
  non-delimiter and are first or preceded by a delimiter.  The link between
  the two views is `tokens_eq_map_starts`; it is what lets a scan that works on
  offsets be compared with one that works on tokens.
-/

import Mathlib.Data.List.Basic
import Mathlib.Data.List.TakeWhile

namespace Tokens

variable {α : Type _} (delim : α → Bool)

/-- The maximal runs of non-delimiters, in order. -/
def tokens (s : List α) : List (List α) :=
  match _h : s.dropWhile delim with
  | [] => []
  | b :: rest =>
      (b :: rest.takeWhile (fun c => !delim c)) ::
        tokens (rest.dropWhile (fun c => !delim c))
termination_by s.length
decreasing_by
  have h1 : (s.dropWhile delim).length ≤ s.length := (List.dropWhile_suffix _).length_le
  have h2 := (List.dropWhile_suffix (fun c => !delim c) (l := rest)).length_le
  rw [_h, List.length_cons] at h1
  omega

/-- Whether a run starts at offset `i`; `fresh` says whether one may start at
    offset 0. -/
def isStart (fresh : Bool) (s : List α) (i : Nat) : Bool :=
  (s[i]?.any fun b => !delim b) &&
    match i with
    | 0 => fresh
    | j + 1 => s[j]?.any delim

/-- The offsets at which runs start, ascending. -/
def startsFrom (fresh : Bool) (s : List α) : List Nat :=
  (List.range s.length).filter (isStart delim fresh s)

/-- The offsets at which the tokens of `s` start, ascending. -/
def starts (s : List α) : List Nat := startsFrom delim true s

/-- The run that starts at offset `i`. -/
def runAt (s : List α) (i : Nat) : List α := (s.drop i).takeWhile (fun c => !delim c)

variable {delim}

/-! ## Cutting a text -/

/-- A text is cut off where it ends or something else follows it. -/
theorem takeWhile_dropWhile_append {p : α → Bool} {s t : List α} (hs : s.all p = true)
    (ht : ∀ b ∈ t.head?, p b = false) :
    (s ++ t).takeWhile p = s ∧ (s ++ t).dropWhile p = t := by
  have hall : ∀ b ∈ s, p b = true := List.all_eq_true.mp hs
  cases t with
  | nil =>
      rw [List.append_nil]
      exact ⟨List.takeWhile_eq_self_iff.mpr hall, List.dropWhile_eq_nil_iff.mpr hall⟩
  | cons b t =>
      have hb : ¬ p b = true := by simp [ht b rfl]
      rw [List.takeWhile_append_of_pos hall, List.dropWhile_append_of_pos hall,
        List.takeWhile_cons_of_neg hb, List.dropWhile_cons_of_neg hb, List.append_nil]
      exact ⟨rfl, rfl⟩

/-! ## Equations of the tokenizer -/

@[simp] theorem tokens_nil : tokens delim [] = [] := by
  rw [tokens]
  simp

theorem tokens_cons_delim {d : α} {s : List α} (hd : delim d = true) :
    tokens delim (d :: s) = tokens delim s := by
  rw [tokens, tokens, List.dropWhile_cons_of_pos hd]

theorem tokens_cons_run {b : α} {s : List α} (hb : delim b = false) :
    tokens delim (b :: s) =
      (b :: s.takeWhile (fun c => !delim c)) ::
        tokens delim (s.dropWhile (fun c => !delim c)) := by
  conv_lhs => rw [tokens]
  have h : (b :: s).dropWhile delim = b :: s :=
    List.dropWhile_cons_of_neg (by simp [hb])
  split
  · rename_i h'
    rw [h] at h'
    exact absurd h' (by simp)
  · rename_i c rest h'
    rw [h] at h'
    obtain ⟨rfl, rfl⟩ := List.cons.inj h'
    rfl

/-- A run behind which the list ends or a delimiter stands is a token. -/
theorem tokens_run_append {t rest : List α} (hne : t ≠ [])
    (ht : ∀ b ∈ t, delim b = false) (hrest : ∀ d ∈ rest.head?, delim d = true) :
    tokens delim (t ++ rest) = t :: tokens delim rest := by
  cases t with
  | nil => exact absurd rfl hne
  | cons b t =>
      have hall : ∀ c ∈ t, (!delim c) = true := by
        intro c hc
        simp [ht c (List.mem_cons_of_mem _ hc)]
      have hstop : rest.takeWhile (fun c => !delim c) = [] ∧
          rest.dropWhile (fun c => !delim c) = rest := by
        cases rest with
        | nil => simp
        | cons d r => simp [hrest d (by simp)]
      rw [List.cons_append, tokens_cons_run (ht b (List.mem_cons_self ..)),
        List.takeWhile_append_of_pos hall, List.dropWhile_append_of_pos hall,
        hstop.1, hstop.2, List.append_nil]

theorem tokens_eq_nil_of_forall {s : List α} (h : ∀ b ∈ s, delim b = true) :
    tokens delim s = [] := by
  induction s with
  | nil => exact tokens_nil
  | cons d s ih =>
      rw [tokens_cons_delim (h d (List.mem_cons_self ..))]
      exact ih fun b hb => h b (List.mem_cons_of_mem _ hb)

/-- The first token, and what is left of the list behind it. -/
theorem tokens_eq_dropWhile (s : List α) :
    tokens delim s =
      if s.dropWhile delim = [] then []
      else (s.dropWhile delim).takeWhile (fun c => !delim c) ::
        tokens delim ((s.dropWhile delim).dropWhile fun c => !delim c) := by
  cases hs : s.dropWhile delim with
  | nil =>
      rw [tokens]
      split
      · rfl
      · next h => rw [hs] at h; exact absurd h (by simp)
  | cons b rest =>
      have hb : delim b = false := by
        have h := List.head?_dropWhile_not delim s
        rw [hs] at h
        simpa using h
      have hb' : (!delim b) = true := by rw [hb]; rfl
      have htake : (b :: rest).takeWhile (fun c => !delim c) =
          b :: rest.takeWhile (fun c => !delim c) := List.takeWhile_cons_of_pos hb'
      have hdrop : (b :: rest).dropWhile (fun c => !delim c) =
          rest.dropWhile (fun c => !delim c) := List.dropWhile_cons_of_pos hb'
      rw [if_neg (List.cons_ne_nil _ _), htake, hdrop, tokens]
      split
      · next h => rw [hs] at h; exact absurd h (by simp)
      · next h =>
        rw [hs] at h
        obtain ⟨rfl, rfl⟩ := List.cons.inj h
        rfl

/-- The first token of a list that has one. -/
theorem exists_of_tokens_eq_cons {s t : List α} {ts : List (List α)}
    (h : tokens delim s = t :: ts) :
    ∃ rest, s.dropWhile delim = t ++ rest ∧ t ≠ [] ∧ (∀ b ∈ t, delim b = false) ∧
      (∀ d ∈ rest.head?, delim d = true) ∧ ts = tokens delim rest := by
  rw [tokens_eq_dropWhile] at h
  split at h
  · exact absurd h (by simp)
  · next hne =>
    obtain ⟨rfl, rfl⟩ := List.cons.inj h
    refine ⟨_, List.takeWhile_append_dropWhile.symm, ?_, ?_, ?_, rfl⟩
    · obtain ⟨b, rest, hdrop⟩ := List.exists_cons_of_ne_nil hne
      have hb : delim b = false := by
        have h := List.head?_dropWhile_not delim s
        rw [hdrop] at h
        simpa using h
      rw [hdrop, List.takeWhile_cons]
      simp [hb]
    · intro b hb
      simpa using List.mem_takeWhile_imp hb
    · intro d hd
      have h := List.head?_dropWhile_not (fun c => !delim c) (s.dropWhile delim)
      rw [hd] at h
      simpa using h

theorem ne_nil_of_mem_tokens {s t : List α} (h : t ∈ tokens delim s) : t ≠ [] := by
  induction hn : s.length using Nat.strongRecOn generalizing s with
  | ind n ih =>
      cases htokens : tokens delim s with
      | nil =>
          rw [htokens] at h
          exact absurd h List.not_mem_nil
      | cons u us =>
          obtain ⟨rest, hdrop, hne, -, -, rfl⟩ := exists_of_tokens_eq_cons htokens
          rw [htokens] at h
          rcases List.mem_cons.mp h with rfl | h
          · exact hne
          · have hlen := (List.dropWhile_suffix delim (l := s)).length_le
            have hpos := List.length_pos_iff.mpr hne
            rw [hdrop, List.length_append] at hlen
            exact ih rest.length (by omega) h rfl

theorem tokens_eq_nil_iff {s : List α} : tokens delim s = [] ↔ ∀ b ∈ s, delim b = true := by
  constructor
  · intro h
    rw [tokens_eq_dropWhile] at h
    split at h
    · next hnil => exact List.dropWhile_eq_nil_iff.mp hnil
    · exact absurd h (List.cons_ne_nil _ _)
  · exact tokens_eq_nil_of_forall

/-- A delimiter ends the tokens before it. -/
theorem tokens_append {s rest : List α} (hrest : ∀ d ∈ rest.head?, delim d = true) :
    tokens delim (s ++ rest) = tokens delim s ++ tokens delim rest := by
  induction hn : s.length using Nat.strongRecOn generalizing s with
  | ind n ih =>
      cases s with
      | nil => simp
      | cons b s =>
          by_cases hb : delim b = true
          · rw [List.cons_append, tokens_cons_delim hb, tokens_cons_delim hb]
            exact ih s.length (by rw [← hn]; exact Nat.lt_succ_self _) rfl
          · have hb' : delim b = false := by simpa using hb
            have hsplit : b :: s = (b :: s.takeWhile fun c => !delim c) ++
                s.dropWhile (fun c => !delim c) := by
              rw [List.cons_append, List.takeWhile_append_dropWhile]
            have hrun : ∀ c ∈ b :: s.takeWhile (fun c => !delim c), delim c = false := by
              intro c hc
              rcases List.mem_cons.mp hc with rfl | hc
              · exact hb'
              · simpa using List.mem_takeWhile_imp hc
            have hnext : ∀ d ∈ (s.dropWhile (fun c => !delim c) ++ rest).head?, delim d = true := by
              intro d hd
              have hnot := List.head?_dropWhile_not (fun c => !delim c) s
              cases hdrop : s.dropWhile (fun c => !delim c) with
              | nil =>
                  rw [hdrop] at hd
                  exact hrest d hd
              | cons c tail =>
                  rw [hdrop] at hd hnot
                  obtain rfl : c = d := by simpa using hd
                  simpa using hnot
            have hlen := (List.dropWhile_suffix (fun c => !delim c) (l := s)).length_le
            rw [tokens_cons_run hb', hsplit, List.append_assoc,
              tokens_run_append (List.cons_ne_nil _ _) hrun hnext,
              ih _ (by rw [← hn, List.length_cons]; omega) rfl, List.cons_append]

/-- Runs joined by delimiters are the tokens of the whole. -/
theorem tokens_intercalate {d : α} (hd : delim d = true) {ts : List (List α)}
    (hts : ∀ t ∈ ts, t ≠ [] ∧ ∀ b ∈ t, delim b = false) :
    tokens delim ([d].intercalate ts) = ts := by
  induction ts with
  | nil => exact tokens_nil
  | cons t ts ih =>
      obtain ⟨hne, hclean⟩ := hts t (List.mem_cons_self ..)
      have ih := ih fun u hu => hts u (List.mem_cons_of_mem t hu)
      by_cases hlast : ts = []
      · have h : tokens delim (t ++ []) = t :: tokens delim [] :=
          tokens_run_append hne hclean (by simp)
        rw [List.append_nil, tokens_nil] at h
        rw [hlast, List.intercalate_singleton, h]
      · rw [List.intercalate_cons_of_ne_nil hlast, List.append_assoc,
          tokens_run_append hne hclean (by simp [hd]), List.singleton_append,
          tokens_cons_delim hd, ih]

/-- Each delimiter starts one token at most. -/
theorem length_tokens_le (s : List α) : (tokens delim s).length ≤ 1 + s.countP delim := by
  induction hn : s.length using Nat.strongRecOn generalizing s with
  | ind n ih =>
      cases htokens : tokens delim s with
      | nil => exact Nat.zero_le _
      | cons t ts =>
          obtain ⟨rest, hdrop, hne, -, hrest, rfl⟩ := exists_of_tokens_eq_cons htokens
          have hsub : (t ++ rest).Sublist s := hdrop ▸ List.dropWhile_sublist _
          have hcount := hsub.countP_le (p := delim)
          have hlen := hsub.length_le
          have hpos := List.length_pos_iff.mpr hne
          rw [List.length_append] at hlen
          rw [List.countP_append] at hcount
          cases rest with
          | nil => simp
          | cons d rest =>
              -- the run ends at a delimiter, which the next token does not start at
              have hd : delim d = true := hrest d rfl
              have hnext := ih rest.length (by rw [List.length_cons] at hlen; omega) rest rfl
              rw [List.countP_cons_of_pos hd] at hcount
              rw [List.length_cons, tokens_cons_delim hd]
              omega

/-! ## Starts -/

@[simp] theorem startsFrom_nil (fresh : Bool) : startsFrom delim fresh [] = [] := rfl

theorem isStart_cons_succ (fresh : Bool) (b : α) (s : List α) (i : Nat) :
    isStart delim fresh (b :: s) (i + 1) = isStart delim (delim b) s i := by
  cases i with
  | zero => simp [isStart]
  | succ j => simp [isStart]

theorem startsFrom_cons (fresh : Bool) (b : α) (s : List α) :
    startsFrom delim fresh (b :: s) =
      (if fresh && !delim b then [0] else []) ++
        (startsFrom delim (delim b) s).map (· + 1) := by
  have hcomp : isStart delim fresh (b :: s) ∘ Nat.succ = isStart delim (delim b) s :=
    funext fun i => isStart_cons_succ fresh b s i
  have hzero : isStart delim fresh (b :: s) 0 = (fresh && !delim b) := by
    simp [isStart, Bool.and_comm]
  unfold startsFrom
  rw [List.length_cons, List.range_succ_eq_map, List.filter_cons, List.filter_map, hcomp, hzero]
  split <;> simp

/-- With `fresh` the runs are the tokens; without it the run the list starts
    in is dropped first.  The induction consumes one element, and the flag
    carries whether it was a delimiter. -/
theorem tokens_eq_map_startsFrom (s : List α) :
    tokens delim s = (startsFrom delim true s).map (runAt delim s) ∧
      tokens delim (s.dropWhile fun c => !delim c) =
        (startsFrom delim false s).map (runAt delim s) := by
  induction s with
  | nil => simp
  | cons b s ih =>
      have hshift : runAt delim (b :: s) ∘ (· + 1) = runAt delim s := rfl
      cases hb : delim b with
      | true =>
          have hdrop : (b :: s).dropWhile (fun c => !delim c) = b :: s :=
            List.dropWhile_cons_of_neg (by simp [hb])
          rw [hdrop, tokens_cons_delim hb, startsFrom_cons, startsFrom_cons, hb]
          simp [hshift, ih.1]
      | false =>
          have hdrop : (b :: s).dropWhile (fun c => !delim c) =
              s.dropWhile fun c => !delim c :=
            List.dropWhile_cons_of_pos (by simp [hb])
          have hrun : runAt delim (b :: s) 0 = b :: s.takeWhile fun c => !delim c := by
            simp [runAt, hb]
          rw [hdrop, tokens_cons_run hb, startsFrom_cons, startsFrom_cons, hb]
          simp [hshift, ih.2, hrun]

theorem tokens_eq_map_starts (s : List α) :
    tokens delim s = (starts delim s).map (runAt delim s) :=
  (tokens_eq_map_startsFrom s).1

theorem mem_starts {s : List α} {i : Nat} :
    i ∈ starts delim s ↔ ∃ b, s[i]? = some b ∧ delim b = false ∧
      (i = 0 ∨ ∃ p, s[i - 1]? = some p ∧ delim p = true) := by
  unfold starts startsFrom
  rw [List.mem_filter, List.mem_range]
  constructor
  · rintro ⟨hlt, hstart⟩
    refine ⟨s[i], List.getElem?_eq_getElem hlt, ?_⟩
    cases i with
    | zero => simpa [isStart, List.getElem?_eq_getElem hlt] using hstart
    | succ j =>
        have hj : j < s.length := by omega
        simpa [isStart, List.getElem?_eq_getElem hlt, List.getElem?_eq_getElem hj] using hstart
  · rintro ⟨b, hb, hdb, hprev⟩
    have hlt : i < s.length := (List.getElem?_eq_some_iff.mp hb).1
    refine ⟨hlt, ?_⟩
    cases i with
    | zero => simp [isStart, hb, hdb]
    | succ j =>
        obtain h | ⟨p, hp, hdp⟩ := hprev
        · exact absurd h (by omega)
        · rw [Nat.add_sub_cancel] at hp
          simp [isStart, hb, hdb, hp, hdp]

/-! ## What a token is -/

theorem not_delim_of_mem_runAt {s : List α} {i : Nat} {b : α} (hb : b ∈ runAt delim s i) :
    delim b = false := by
  have h := List.mem_takeWhile_imp hb
  simpa using h

/-- The run at `i` occupies the positions from `i` on. -/
theorem runAt_isPrefix (delim : α → Bool) (s : List α) (i : Nat) : runAt delim s i <+: s.drop i :=
  List.takeWhile_prefix _

/-! ## Tokens of a prefix that ends at a delimiter -/

/-- Where the list goes on with a delimiter, a run of the prefix is a run of the
    whole. -/
theorem runAt_append {a b : List α} (hb : ∀ d ∈ b.head?, delim d = true) {i : Nat}
    (hi : i ≤ a.length) : runAt delim (a ++ b) i = runAt delim a i := by
  have hstop : b.takeWhile (fun c => !delim c) = [] := by
    cases b with
    | nil => rfl
    | cons d b => exact List.takeWhile_cons_of_neg (by simp [hb d (by simp)])
  unfold runAt
  rw [List.drop_append_of_le_length hi, List.takeWhile_append, hstop]
  split
  · next h =>
    rw [List.append_nil]
    exact ((List.takeWhile_prefix _).eq_of_length h).symm
  · rfl

theorem mem_starts_append {a b : List α} {i : Nat} (hi : i < a.length) :
    i ∈ starts delim (a ++ b) ↔ i ∈ starts delim a := by
  rw [mem_starts, mem_starts, List.getElem?_append_left hi,
    List.getElem?_append_left (show i - 1 < a.length by omega)]

theorem lt_of_mem_starts {s : List α} {i : Nat} (hi : i ∈ starts delim s) : i < s.length := by
  obtain ⟨b, hb, -⟩ := mem_starts.mp hi
  exact (List.getElem?_eq_some_iff.mp hb).1

theorem length_runAt_le (delim : α → Bool) {s : List α} {i : Nat} (hi : i ≤ s.length) :
    i + (runAt delim s i).length ≤ s.length := by
  have h := (runAt_isPrefix delim s i).length_le
  rw [List.length_drop] at h
  omega

end Tokens
