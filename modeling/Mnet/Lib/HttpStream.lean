/-
  Mnet.Lib.HttpStream

  Several HTTP/1.1 responses on one connection.

  A message that says where it ends is read the same whatever follows it
  (`readMessage_append_right`), so such messages written one behind the other
  are read back one by one (`readAll_flatMap`).  `readAll` is told, for each
  message, whether it answers a HEAD request.
-/

import Mnet.Lib.HttpMessage

namespace HttpMessage

/-- One response after another, as many as there are flags. -/
def readAll : List Bool → Text → Option (List Message × Text)
  | [], s => some ([], s)
  | headOnly :: flags, s =>
      (readMessage headOnly s).bind fun (m, rest) =>
        (readAll flags rest).map fun (ms, rest) => (m :: ms, rest)

/-- The message says where it ends: it has no body, or a field that frames
    it. -/
def Message.framed (headOnly : Bool) (m : Message) : Bool :=
  isBodiless headOnly m.status || !(valuesOf transferEncoding m.fields).isEmpty ||
    !(valuesOf contentLength m.fields).isEmpty

-- ============================================================================
-- What follows does not matter
-- ============================================================================

theorem takeLine_append_right {s line rest : Text} (h : takeLine s = some (line, rest))
    (t : Text) : takeLine (s ++ t) = some (line, rest ++ t) := by
  fun_induction takeLine s generalizing line with
  | case1 => exact absurd h (by simp)
  | case2 rest' =>
      obtain ⟨rfl, rfl⟩ := Prod.mk.inj (Option.some.inj h)
      show takeLine (13 :: 10 :: (rest' ++ t)) = _
      rw [takeLine]
  | case3 b s hne ih =>
      obtain ⟨⟨l, r⟩, hr, heq⟩ := Option.map_eq_some_iff.mp h
      obtain ⟨rfl, rfl⟩ := Prod.mk.inj heq
      rw [List.cons_append, takeLine, ih hr]
      · rfl
      · -- a CR at the end of `s` would have ended no line
        intro rest' hb hs
        cases s with
        | nil => exact absurd hr (by simp [takeLine])
        | cons c s =>
            obtain ⟨rfl, -⟩ := List.cons.inj hs
            exact hne s hb rfl

theorem readFields_append_right {s rest : Text} {fields : List (Text × Text)}
    (h : readFields s = some (fields, rest)) (t : Text) :
    readFields (s ++ t) = some (fields, rest ++ t) := by
  fun_induction readFields s generalizing fields with
  | case1 s hline => exact absurd h (by simp)
  | case2 s rest' hline =>
      obtain ⟨rfl, rfl⟩ := Prod.mk.inj (Option.some.inj h)
      have hline' := takeLine_append_right hline t
      rw [readFields]
      split
      · next h' => rw [hline'] at h'; simp at h'
      · next h' => rw [hline'] at h'; simpa using h'.symm
      · next h' => rw [hline'] at h'; simp at h'
  | case3 s b line rest' hline hfield => exact absurd h (by simp)
  | case4 s b line rest' hline field hfield ih =>
      obtain ⟨⟨fs, r⟩, hr, heq⟩ := Option.map_eq_some_iff.mp h
      obtain ⟨rfl, rfl⟩ := Prod.mk.inj heq
      have hline' := takeLine_append_right hline t
      rw [readFields]
      split
      · next h' => rw [hline'] at h'; simp at h'
      · next h' => rw [hline'] at h'; simp at h'
      · next h' =>
        rw [hline'] at h'
        obtain ⟨⟨rfl, rfl⟩, rfl⟩ := by simpa using h'
        simp only [hfield, ih hr, Option.map_some]

theorem takeExactly_append_right {n : Nat} {s body rest : Text}
    (h : takeExactly n s = some (body, rest)) (t : Text) :
    takeExactly n (s ++ t) = some (body, rest ++ t) := by
  rw [takeExactly] at h ⊢
  split at h
  · next hle =>
    obtain ⟨rfl, rfl⟩ := Prod.mk.inj (Option.some.inj h)
    rw [if_pos (by rw [List.length_append]; omega), List.take_append_of_le_length hle,
      List.drop_append_of_le_length hle]
  · exact absurd h (by simp)

theorem readChunks_append_right {s body rest : Text} (h : readChunks s = some (body, rest))
    (t : Text) : readChunks (s ++ t) = some (body, rest ++ t) := by
  fun_induction readChunks s generalizing body with
  | case1 s hline => exact absurd h (by simp)
  | case2 s size rest' hline hsize => exact absurd h (by simp)
  | case3 s size rest' hline hsize rest'' hlast =>
      obtain ⟨rfl, rfl⟩ := Prod.mk.inj (Option.some.inj h)
      have hline' := takeLine_append_right hline t
      have hlast' := takeLine_append_right hlast t
      rw [readChunks]
      split
      · next h' => rw [hline'] at h'; simp at h'
      · next h' =>
        rw [hline'] at h'
        obtain ⟨rfl, rfl⟩ := Prod.mk.inj (Option.some.inj h')
        simp only [hsize, hlast']
  | case4 s size rest' hline hsize hlast => exact absurd h (by simp)
  | case5 s size rest' hline n hsize more hmore ih =>
      obtain ⟨⟨b, r⟩, hr, heq⟩ := Option.map_eq_some_iff.mp h
      obtain ⟨rfl, rfl⟩ := Prod.mk.inj heq
      have hline' := takeLine_append_right hline t
      have hle : n + 1 ≤ rest'.length := by
        have hlen := congrArg List.length hmore
        rw [List.length_drop, List.length_cons] at hlen
        omega
      have hmore' : (rest' ++ t).drop (n + 1) = 13 :: 10 :: (more ++ t) := by
        rw [List.drop_append_of_le_length hle, hmore]
        rfl
      have htake : (rest' ++ t).take (n + 1) = rest'.take (n + 1) :=
        List.take_append_of_le_length hle
      rw [readChunks]
      split
      · next h' => rw [hline'] at h'; simp at h'
      · next h' =>
        rw [hline'] at h'
        obtain ⟨rfl, rfl⟩ := Prod.mk.inj (Option.some.inj h')
        simp only [hsize]
        split
        · next more' h'' =>
          rw [hmore'] at h''
          obtain rfl : more ++ t = more' := by simpa using h''
          rw [ih hr, htake, Option.map_some]
        · next h'' => exact absurd hmore' (h'' _)
  | case6 s size rest' hline n hsize hmore => exact absurd h (by simp)

theorem readBody_append_right {fields : List (Text × Text)} {s body rest : Text}
    (hframed : valuesOf transferEncoding fields ≠ [] ∨ valuesOf contentLength fields ≠ [])
    (h : readBody fields s = some (body, rest)) (t : Text) :
    readBody fields (s ++ t) = some (body, rest ++ t) := by
  unfold readBody at h ⊢
  split at h
  · next coding hcoding hlength =>
    split at h
    · next hchunked => rw [if_pos hchunked, readChunks_append_right h]
    · exact absurd h (by simp)
  · next length hcoding hlength =>
    obtain ⟨n, hn, htake⟩ := Option.bind_eq_some_iff.mp h
    rw [hn, Option.bind_some, takeExactly_append_right htake]
  · next hcoding hlength => exact absurd hframed (by simp [hcoding, hlength])
  · exact absurd h (by simp)

/-- A message that says where it ends is read the same whatever follows it. -/
theorem readMessage_append_right {headOnly : Bool} {s rest : Text} {m : Message}
    (h : readMessage headOnly s = some (m, rest)) (hframed : m.framed headOnly = true)
    (t : Text) : readMessage headOnly (s ++ t) = some (m, rest ++ t) := by
  obtain ⟨first, hfirst, h⟩ := Option.bind_eq_some_iff.mp h
  obtain ⟨status, hstatus, h⟩ := Option.bind_eq_some_iff.mp h
  obtain ⟨⟨fields, after⟩, hfields, h⟩ := Option.bind_eq_some_iff.mp h
  rw [readMessage, takeLine_append_right hfirst, Option.bind_some, hstatus, Option.bind_some,
    readFields_append_right hfields, Option.bind_some]
  split at h
  · next hbodiless =>
    obtain ⟨rfl, rfl⟩ := Prod.mk.inj (Option.some.inj h)
    rw [if_pos hbodiless]
  · next hbodiless =>
    obtain ⟨⟨body, after'⟩, hbody, heq⟩ := Option.map_eq_some_iff.mp h
    obtain ⟨rfl, rfl⟩ := Prod.mk.inj heq
    rw [if_neg hbodiless, readBody_append_right _ hbody, Option.map_some]
    simpa [Message.framed, hbodiless] using hframed

/-- Of the first line only the status matters. -/
theorem readMessage_congr_line {first first' : Text} (hfirst : 13 ∉ first) (hfirst' : 13 ∉ first')
    (hstatus : readStatus first = readStatus first') (headOnly : Bool) (s : Text) :
    readMessage headOnly (first ++ 13 :: 10 :: s) = readMessage headOnly (first' ++ 13 :: 10 :: s) := by
  rw [readMessage, readMessage, takeLine_append hfirst, takeLine_append hfirst', Option.bind_some,
    Option.bind_some, hstatus]

-- ============================================================================
-- Messages one behind the other
-- ============================================================================

/-- Messages that say where they end are read back one by one, up to what
    follows the last of them. -/
theorem readAll_flatMap {α : Type} {headOnly : α → Bool} {text : α → Text} {message : α → Message}
    (items : List α)
    (hread : ∀ x ∈ items, readMessage (headOnly x) (text x) = some (message x, []) ∧
      (message x).framed (headOnly x) = true) (rest : Text) :
    readAll (items.map headOnly) (items.flatMap text ++ rest) = some (items.map message, rest) := by
  induction items with
  | nil => rfl
  | cons x items ih =>
      obtain ⟨⟨hx, hframed⟩, hitems⟩ := List.forall_mem_cons.mp hread
      rw [List.map_cons, List.flatMap_cons, List.append_assoc, readAll,
        readMessage_append_right hx hframed, Option.bind_some]
      show (readAll (items.map headOnly) (items.flatMap text ++ rest)).map _ = _
      rw [ih hitems]
      rfl

end HttpMessage
