import CodeCompletion.Proofs.Cursor.Word
import CodeCompletion.Proofs.Stage.Labels
import CodeCompletion.Proofs.Text.ByteOrder

/-!
# Names that start as typed

Whether a name starts with the typed word is looked up byte by byte, and capital letters of ASCII
count as small ones. All other bytes have to agree, so the bytes that are compared are those of whole
characters: a name starts as typed exactly if its first characters are the typed ones up to the case
of ASCII letters.
-/

namespace CodeCompletion

namespace Text

/-! ### Bytes of small letters -/

/-- The code of the small letter for that of a capital one of ASCII; other codes as they are. -/
def lowerCode (n : Nat) : Nat := if 0x41 ≤ n ∧ n ≤ 0x5A then n + 0x20 else n

theorem lowerCode_of_lt (n : Nat) (h : 0x5A < n) : lowerCode n = n := if_neg (by omega)

theorem toNat_toLower (c : Char) : c.toLower.val.toNat = lowerCode c.val.toNat := by
  unfold Char.toLower
  split
  case isTrue h =>
    have hcapital : 0x41 ≤ c.val.toNat ∧ c.val.toNat ≤ 0x5A := h
    have hsum : (c.val + 0x20).toNat = c.val.toNat + 0x20 := by
      rw [UInt32.toNat_add]
      exact Nat.mod_eq_of_lt (Nat.lt_of_le_of_lt (Nat.add_le_add_right hcapital.2 _) (by decide))
    rw [lowerCode, if_pos hcapital]
    exact hsum
  case isFalse h =>
    have hother : ¬ (0x41 ≤ c.val.toNat ∧ c.val.toNat ≤ 0x5A) := h
    rw [lowerCode, if_neg hother]

theorem asciiLowerByte_ofNat (n : Nat) (hn : n < 256) :
    asciiLowerByte (UInt8.ofNat n) = UInt8.ofNat (lowerCode n) := by
  have hcapital : (0x41 ≤ UInt8.ofNat n && UInt8.ofNat n ≤ 0x5A) = true ↔
      0x41 ≤ n ∧ n ≤ 0x5A := by
    simp [UInt8.le_iff_toNat_le]
    omega
  unfold asciiLowerByte lowerCode
  by_cases h : 0x41 ≤ n ∧ n ≤ 0x5A
  · rw [if_pos (hcapital.mpr h), if_pos h, UInt8.ofNat_add]
    rfl
  · rw [if_neg (mt hcapital.mp h), if_neg h]

/-- Making the bytes of a character small gives the bytes of the small character. -/
theorem map_asciiLowerByte_encode (c : Char) :
    (String.utf8EncodeChar c).map asciiLowerByte = String.utf8EncodeChar c.toLower := by
  have hc := codePoint_lt c
  simp only [String.utf8EncodeChar]
  rw [toNat_toLower]
  generalize c.val.toNat = n at hc
  by_cases h1 : n ≤ 0x7F
  · have hlower : lowerCode n ≤ 0x7F := by
      unfold lowerCode
      split <;> omega
    rw [if_pos h1, if_pos hlower, List.map_singleton, asciiLowerByte_ofNat n (by omega)]
  · -- No byte of an encoding of several bytes is that of a letter of ASCII.
    have hbyte (m : Nat) (hm : 0x80 ≤ m) (hm' : m < 256) :
        asciiLowerByte (UInt8.ofNat m) = UInt8.ofNat m := by
      rw [asciiLowerByte_ofNat m hm', lowerCode_of_lt m (by omega)]
    have htail (m : Nat) :
        asciiLowerByte (UInt8.ofNat (m % 64 + 0x80)) = UInt8.ofNat (m % 64 + 0x80) :=
      hbyte _ (by omega) (by omega)
    rw [lowerCode_of_lt n (by omega), if_neg h1]
    split
    · simp only [List.map_cons, List.map_nil, htail]
      rw [hbyte _ (by omega) (by omega)]
    · split <;>
      · simp only [List.map_cons, List.map_nil, htail]
        rw [hbyte _ (by omega) (by omega)]

theorem map_asciiLowerByte_utf8Bytes (s : List Char) :
    (utf8Bytes s).map asciiLowerByte = utf8Bytes (s.map Char.toLower) := by
  rw [utf8Bytes, utf8Bytes, List.map_flatMap, List.flatMap_map]
  exact List.flatMap_congr fun c _ => map_asciiLowerByte_encode c

theorem utf8Size_toLower (c : Char) : c.toLower.utf8Size = c.utf8Size := by
  rw [← String.length_utf8EncodeChar, ← map_asciiLowerByte_encode, List.length_map,
    String.length_utf8EncodeChar]

theorem byteLength_map_toLower (s : List Char) : byteLength (s.map Char.toLower) = byteLength s := by
  induction s with
  | nil => rfl
  | cons c s ih => rw [List.map_cons, byteLength, byteLength, ih, utf8Size_toLower]

/-! ### Bytes at the front of bytes -/

theorem eq_of_encode_append {c d : Char} {x y : List UInt8}
    (h : String.utf8EncodeChar c ++ x = String.utf8EncodeChar d ++ y) : c = d := by
  rcases Nat.lt_trichotomy c.toNat d.toNat with hlt | heq | hlt
  · have hbytes := encode_append_lt c d hlt x y
    rw [h] at hbytes
    exact absurd hbytes (List.lt_irrefl _)
  · exact Char.toNat_inj.mp heq
  · have hbytes := encode_append_lt d c hlt y x
    rw [h] at hbytes
    exact absurd hbytes (List.lt_irrefl _)

theorem utf8Bytes_prefix_iff (a b : List Char) : utf8Bytes a <+: utf8Bytes b ↔ a <+: b := by
  constructor
  · intro h
    induction a generalizing b with
    | nil => exact List.nil_prefix
    | cons c a ih =>
      obtain ⟨rest, hrest⟩ := h
      rw [utf8Bytes, List.flatMap_cons, List.append_assoc] at hrest
      cases b with
      | nil =>
        have hnil := (List.append_eq_nil_iff.mp hrest).1
        exact absurd hnil (encode_ne_nil c)
      | cons d b =>
        rw [utf8Bytes, List.flatMap_cons] at hrest
        obtain rfl := eq_of_encode_append hrest
        exact List.cons_prefix_cons.mpr ⟨rfl, ih b ⟨rest, List.append_cancel_left hrest⟩⟩
  · rintro ⟨rest, rfl⟩
    rw [utf8Bytes, utf8Bytes, List.flatMap_append]
    exact List.prefix_append ..

theorem map_prefix_map_iff_zip {α β : Type} [BEq β] [LawfulBEq β] (f : α → β) (xs ys : List α) :
    xs.map f <+: ys.map f ↔
      xs.length ≤ ys.length ∧ ((ys.zip xs).all fun (y, x) => f y == f x) = true := by
  induction xs generalizing ys with
  | nil => simp
  | cons x xs ih =>
    cases ys with
    | nil => simp
    | cons y ys =>
      rw [List.map_cons, List.map_cons, List.cons_prefix_cons, ih, List.zip_cons_cons,
        List.all_cons, Bool.and_eq_true, beq_iff_eq, List.length_cons, List.length_cons,
        Nat.add_le_add_iff_right, eq_comm]
      exact and_left_comm

/-! ### Texts that start alike -/

/-- Whether a text has a character in the place of each typed one, the same up to the case of ASCII
letters. -/
def StartsAs (typed text : String) : Prop :=
  ∃ _ : typed.toList.length ≤ text.toList.length,
    ∀ (i : Nat) (_ : i < typed.toList.length), typed.toList[i].toLower = text.toList[i].toLower

theorem startsAs_iff_map_toLower (typed text : String) :
    StartsAs typed text ↔ typed.toList.map Char.toLower <+: text.toList.map Char.toLower := by
  rw [List.prefix_iff_getElem]
  simp only [List.length_map, List.getElem_map]
  exact Iff.rfl

instance (typed text : String) : Decidable (StartsAs typed text) :=
  decidable_of_iff _ (startsAs_iff_map_toLower typed text).symm

section Texts

variable (typed text : String)

theorem startsWithIgnoringAsciiCase_iff_startsAs :
    startsWithIgnoringAsciiCase typed text = true ↔ StartsAs typed text := by
  rw [startsWithIgnoringAsciiCase, List.isPrefixOf_iff_prefix, map_asciiLowerByte_utf8Bytes,
    map_asciiLowerByte_utf8Bytes, utf8Bytes_prefix_iff, startsAs_iff_map_toLower]

theorem startsWithIgnoringAsciiCase_iff_zip :
    startsWithIgnoringAsciiCase typed text = true ↔
      (bytes typed).length ≤ (bytes text).length ∧
        ((bytes text).zip (bytes typed)).all
          (fun (b, a) => asciiLowerByte b == asciiLowerByte a) = true := by
  rw [startsWithIgnoringAsciiCase, List.isPrefixOf_iff_prefix, ← map_prefix_map_iff_zip,
    bytes_eq_flatMap, bytes_eq_flatMap]
  exact Iff.rfl

/-- The bytes that are compared are those of whole characters. -/
theorem startsAs_iff_exists_append :
    StartsAs typed text ↔ ∃ start rest : String, text = start ++ rest ∧
      start.length = typed.length ∧ start.utf8ByteSize = typed.utf8ByteSize ∧
        StartsAs typed start := by
  constructor
  · intro h
    obtain ⟨hle, hsame⟩ := h
    have hstart : typed.toList.map Char.toLower =
        (text.toList.take typed.toList.length).map Char.toLower := by
      refine List.ext_getElem (by simp [Nat.min_eq_left hle]) fun i hi hi' => ?_
      rw [List.getElem_map, List.getElem_map, List.getElem_take]
      exact hsame i (by simpa using hi)
    refine ⟨String.ofList (text.toList.take typed.toList.length),
      String.ofList (text.toList.drop typed.toList.length), ?_, ?_, ?_, ?_⟩
    · rw [← String.ofList_append, List.take_append_drop, String.ofList_toList]
    · rw [String.length_ofList, List.length_take, Nat.min_eq_left hle, String.length_toList]
    · rw [utf8ByteSize_ofList, ← byteLength_map_toLower, ← hstart, byteLength_map_toLower,
        byteLength_toList]
    · rw [startsAs_iff_map_toLower, String.toList_ofList, hstart]
  · rintro ⟨start, rest, rfl, -, -, hstart⟩
    rw [startsAs_iff_map_toLower] at hstart ⊢
    rw [String.toList_append, List.map_append]
    exact hstart.trans (List.prefix_append ..)

end Texts

end Text

namespace Stage

open StageRun Text

theorem left_strictStart (r : Request) (entries : List Entry) :
    left (strictStart r entries) entries =
      entries.filter fun e => startsWithIgnoringAsciiCase r.typed e.name := by
  unfold strictStart
  split
  case isTrue h =>
    have hall : ∀ e ∈ entries, startsWithIgnoringAsciiCase r.typed e.name = true := by
      intro e _
      rw [startsWithIgnoringAsciiCase_iff_startsAs, startsAs_iff_map_toLower,
        String.isEmpty_iff.mp h]
      exact List.nil_prefix
    exact (List.filter_eq_self.mpr hall).symm
  case isFalse h => rw [left_retain]; rfl

/-- Comparing the bytes finds the texts whose characters are the typed ones up to the case of ASCII
letters. What is found never ends inside a character, and the stage that is strict about the typed
word keeps exactly the entries whose names start with it in this way. -/
theorem bytes_start_alike_iff_characters_do (typed text : String) :
    (startsWithIgnoringAsciiCase typed text = true ↔
        (bytes typed).length ≤ (bytes text).length ∧
          ((bytes text).zip (bytes typed)).all
            (fun (b, a) => asciiLowerByte b == asciiLowerByte a) = true) ∧
      (startsWithIgnoringAsciiCase typed text = true ↔ StartsAs typed text) ∧
      (startsWithIgnoringAsciiCase typed text = true ↔
        ∃ start rest : String, text = start ++ rest ∧ start.length = typed.length ∧
          start.utf8ByteSize = typed.utf8ByteSize ∧ StartsAs typed start) ∧
      ∀ (r : Request) (entries : List Entry),
        left (strictStart r entries) entries =
          entries.filter fun e => decide (StartsAs r.typed e.name) := by
  refine ⟨startsWithIgnoringAsciiCase_iff_zip typed text,
    startsWithIgnoringAsciiCase_iff_startsAs typed text,
    (startsWithIgnoringAsciiCase_iff_startsAs typed text).trans
      (startsAs_iff_exists_append typed text), fun r entries => ?_⟩
  rw [left_strictStart]
  refine List.filter_congr fun e _ => ?_
  rw [Bool.eq_iff_iff, startsWithIgnoringAsciiCase_iff_startsAs, decide_eq_true_iff]

example : StartsAs "élA" "éLan" ∧ ¬ StartsAs "É" "été" := by decide

end Stage

end CodeCompletion
