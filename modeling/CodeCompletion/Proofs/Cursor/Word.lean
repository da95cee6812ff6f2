import CodeCompletion.Cursor
import CodeCompletion.Proofs.Text.Boundary
import CodeCompletion.Proofs.Text.Runs
import Mathlib.Order.Bounds.Defs

/-!
# The word around the cursor

The word is looked for from the greatest boundary up to the offset, to both sides. It and the parts
beside it are cut out of the bytes of the text at boundaries only, it consists of identifier
characters, and none stands directly in front of it or behind it.
-/

namespace CodeCompletion

namespace Text

/-! ### Boundaries of the bytes -/

theorem utf8ByteSize_ofList (s : List Char) : (String.ofList s).utf8ByteSize = byteLength s := by
  induction s with
  | nil => rfl
  | cons c s ih =>
    rw [String.ofList_cons, String.utf8ByteSize_append, String.utf8ByteSize_singleton, ih, byteLength]

theorem byteLength_toList (text : String) : byteLength text.toList = text.utf8ByteSize := by
  rw [← utf8ByteSize_ofList, String.ofList_toList]

theorem splitAt_byteLength (s t : List Char) : splitAt (byteLength s) (s ++ t) = (s, t) := by
  induction s with
  | nil =>
    cases t with
    | nil => rfl
    | cons c t =>
      have hpos : 0 < c.utf8Size := c.utf8Size_pos
      rw [List.nil_append, byteLength, splitAt, if_neg (by omega)]
  | cons c s ih =>
    rw [List.cons_append, byteLength, splitAt, if_pos (Nat.le_add_right ..), Nat.add_sub_cancel_left,
      ih]

theorem isBoundary_iff_exists (n : Nat) (s : List Char) :
    isBoundary n s = true ↔ ∃ a b, s = a ++ b ∧ n = byteLength a := by
  rw [isBoundary_iff]
  constructor
  · intro h
    exact ⟨(splitAt n s).1, (splitAt n s).2, (splitAt_append n s).symm, h.symm⟩
  · rintro ⟨a, b, rfl, rfl⟩
    rw [floorBoundary, splitAt_byteLength]

/-- The boundaries are the offsets at which the UTF-8 form of a character begins, and the end. -/
theorem isValid_iff_isBoundary (text : String) (n : Nat) :
    (String.Pos.Raw.mk n).IsValid text ↔ isBoundary n text.toList = true := by
  rw [String.Pos.Raw.isValid_iff_exists_append, isBoundary_iff_exists]
  constructor
  · rintro ⟨a, b, rfl, hn⟩
    refine ⟨a.toList, b.toList, String.toList_append, ?_⟩
    rw [byteLength_toList]
    exact String.Pos.Raw.ext_iff.mp hn
  · rintro ⟨a, b, htext, rfl⟩
    refine ⟨String.ofList a, String.ofList b, ?_, ?_⟩
    · rw [← String.ofList_append, ← htext, String.ofList_toList]
    · exact String.Pos.Raw.ext_iff.mpr (utf8ByteSize_ofList a).symm

theorem isGreatest_floorBoundary (text : String) (offset : Nat) :
    IsGreatest {b | (String.Pos.Raw.mk b).IsValid text ∧ b ≤ min offset text.utf8ByteSize}
      (floorBoundary offset text.toList) := by
  refine ⟨⟨?_, Nat.le_min.mpr ⟨floorBoundary_le _ _, ?_⟩⟩, ?_⟩
  · exact (isValid_iff_isBoundary text _).mpr (isBoundary_floorBoundary offset text.toList)
  · have hsplit := congrArg byteLength (splitAt_append offset text.toList)
    rw [byteLength_append, byteLength_toList] at hsplit
    exact hsplit ▸ Nat.le_add_right ..
  · rintro b ⟨hb, hle⟩
    exact (le_floorBoundary_iff offset b _ ((isValid_iff_isBoundary text b).mp hb)).mpr
      (Nat.le_min.mp hle).1

/-- Cutting a text from one byte to another succeeds and gives a part: both offsets are boundaries,
in order, and the part has the bytes between them. -/
structure Cut (text : String) (start stop : Nat) (part : String) : Prop where
  ordered : start ≤ stop
  start_isValid : (String.Pos.Raw.mk start).IsValid text
  stop_isValid : (String.Pos.Raw.mk stop).IsValid text
  bytes : part.toByteArray = text.toByteArray.extract start stop

theorem cut_of_append (text : String) (a b c : List Char) (h : text.toList = a ++ b ++ c) :
    Cut text (byteLength a) (byteLength (a ++ b)) (String.ofList b) where
  ordered := by
    rw [byteLength_append]
    exact Nat.le_add_right ..
  start_isValid := (isValid_iff_isBoundary text _).mpr ((isBoundary_iff_exists _ _).mpr
    ⟨a, b ++ c, by rw [h, List.append_assoc], rfl⟩)
  stop_isValid := (isValid_iff_isBoundary text _).mpr ((isBoundary_iff_exists _ _).mpr
    ⟨a ++ b, c, h, rfl⟩)
  bytes := by
    have htext : text = String.ofList a ++ String.ofList b ++ String.ofList c := by
      rw [← String.ofList_append, ← String.ofList_append, ← h, String.ofList_toList]
    have hsize : (String.ofList a).toByteArray.size = byteLength a := by
      rw [String.size_toByteArray, utf8ByteSize_ofList]
    rw [htext, String.toByteArray_append, String.toByteArray_append, ByteArray.append_assoc,
      byteLength_append]
    rw [← Nat.add_zero (byteLength a), Nat.add_assoc, Nat.zero_add,
      ByteArray.extract_append_size_add' hsize.symm, ByteArray.extract_append_eq_left]
    rw [String.size_toByteArray, utf8ByteSize_ofList]

theorem cut_front (text : String) (a b : List Char) (h : text.toList = a ++ b) :
    Cut text 0 (byteLength a) (String.ofList a) :=
  cut_of_append text [] a b h

theorem cut_back (text : String) (a b : List Char) (h : text.toList = a ++ b) :
    Cut text (byteLength a) text.utf8ByteSize (String.ofList b) := by
  have hcut := cut_of_append text a b [] (h.trans (List.append_nil _).symm)
  rw [← h, byteLength_toList] at hcut
  exact hcut

end Text

/-! ### The word -/

/-- A text falls into what stands in front of the word, the typed part and the rest of the word, and
what stands behind it. -/
theorem Word.around_parts (text : List Char) (offset : Nat) :
    ∃ front rest back : List Char,
      text = front ++ (around text offset).typed ++ rest ++ back ∧
      Text.floorBoundary offset text = Text.byteLength (front ++ (around text offset).typed) ∧
      (around text offset).span =
        ⟨Text.byteLength front, Text.byteLength (front ++ (around text offset).typed ++ rest)⟩ ∧
      (∀ c ∈ (around text offset).typed ++ rest, Text.isIdentifierChar c = true) ∧
      (around text offset).before = front.getLast? ∧ (around text offset).after = back.head? ∧
      (∀ c ∈ front.getLast?, Text.isIdentifierChar c = false) ∧
      ∀ c ∈ back.head?, Text.isIdentifierChar c = false := by
  let left := (Text.splitAt offset text).1
  let right := (Text.splitAt offset text).2
  let front := (left.reverse.dropWhile Text.isIdentifierChar).reverse
  let typed := (left.reverse.takeWhile Text.isIdentifierChar).reverse
  let rest := right.takeWhile Text.isIdentifierChar
  let back := right.dropWhile Text.isIdentifierChar
  obtain ⟨hleft, htyped, hfront⟩ := Text.run_at_end Text.isIdentifierChar left
  obtain ⟨hright, hrest, hback⟩ := Text.run_at_front Text.isIdentifierChar right
  have htext : left ++ right = text := Text.splitAt_append offset text
  have hlength : Text.byteLength front + Text.byteLength typed = Text.byteLength left := by
    rw [← Text.byteLength_append, ← hleft]
  have hbefore : front.getLast? = (left.reverse.dropWhile Text.isIdentifierChar).head? :=
    List.getLast?_reverse
  refine ⟨front, rest, back, ?_, ?_, ?_, ?_, hbefore.symm, rfl, hfront, hback⟩
  · change text = front ++ typed ++ rest ++ back
    rw [List.append_assoc, ← hleft, ← hright, htext]
  · change Text.byteLength left = Text.byteLength (front ++ typed)
    rw [← hleft]
  · change Span.mk (Text.byteLength left - Text.byteLength typed)
        (Text.byteLength left + Text.byteLength rest) =
      ⟨Text.byteLength front, Text.byteLength (front ++ typed ++ rest)⟩
    rw [Text.byteLength_append, ← hleft, ← hlength, Nat.add_sub_cancel]
  · intro c hc
    exact (List.mem_append.mp hc).elim (htyped c) (hrest c)

/-- A word is the longest one around a place in a text: it and what stands beside it can be cut out
of the text, it consists of identifier characters, and none stands next to it. -/
structure Word.LongestAt (word : Word) (text : String) (place : Nat) : Prop where
  start_le : word.span.start ≤ place
  le_stop : place ≤ word.span.stop
  halves : ∃ left right, Text.Cut text 0 place left ∧ Text.Cut text place text.utf8ByteSize right
  typed : Text.Cut text word.span.start place (String.ofList word.typed)
  whole : ∃ whole, Text.Cut text word.span.start word.span.stop whole ∧
    ∀ c ∈ whole.toList, Text.isIdentifierChar c = true
  front : ∃ front, Text.Cut text 0 word.span.start front ∧ word.before = front.toList.getLast? ∧
    ∀ c ∈ word.before, Text.isIdentifierChar c = false
  back : ∃ back, Text.Cut text word.span.stop text.utf8ByteSize back ∧
    word.after = back.toList.head? ∧ ∀ c ∈ word.after, Text.isIdentifierChar c = false

theorem Word.around_longestAt (text : String) (offset : Nat) :
    (around text.toList offset).LongestAt text (Text.floorBoundary offset text.toList) := by
  obtain ⟨front, rest, back, htext, hplace, hspan, hword, hbefore, hafter, hfront, hback⟩ :=
    around_parts text.toList offset
  generalize around text.toList offset = word at *
  obtain ⟨typed, span, before, after⟩ := word
  dsimp only at htext hplace hspan hword hbefore hafter
  subst hspan hbefore hafter
  rw [hplace]
  have htyped : text.toList = front ++ typed ++ (rest ++ back) := by
    rw [htext, List.append_assoc]
  have hwhole : text.toList = front ++ (typed ++ rest) ++ back := by
    rw [htext, List.append_assoc front]
  have hfrontOf : text.toList = front ++ (typed ++ rest ++ back) := by
    rw [hwhole, List.append_assoc front]
  exact {
    start_le := (Text.cut_of_append text front typed (rest ++ back) htyped).ordered
    le_stop := (Text.cut_of_append text (front ++ typed) rest back htext).ordered
    halves := ⟨_, _, Text.cut_front text _ _ htyped, Text.cut_back text _ _ htyped⟩
    typed := Text.cut_of_append text front typed (rest ++ back) htyped
    whole := by
      refine ⟨String.ofList (typed ++ rest), ?_, by rwa [String.toList_ofList]⟩
      rw [List.append_assoc]
      exact Text.cut_of_append text front (typed ++ rest) back hwhole
    front := ⟨String.ofList front, Text.cut_front text _ _ hfrontOf,
      by rw [String.toList_ofList], hfront⟩
    back := ⟨String.ofList back, Text.cut_back text _ _ htext,
      by rw [String.toList_ofList], hback⟩ }

theorem Cursor.detect_finds_longest_word (document : Document) (offset : Nat) :
    ∃ place, IsGreatest {b | (String.Pos.Raw.mk b).IsValid document.text ∧
        b ≤ min offset document.text.utf8ByteSize} place ∧
      (detect document offset).word.LongestAt document.text place := by
  refine ⟨Text.floorBoundary offset document.text.toList,
    Text.isGreatest_floorBoundary document.text offset, ?_⟩
  have h := Word.around_longestAt document.text (Text.floorBoundary offset document.text.toList)
  rw [Text.floorBoundary_floorBoundary] at h
  exact h

end CodeCompletion
