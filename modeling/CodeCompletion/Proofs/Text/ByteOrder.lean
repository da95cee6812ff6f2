/-!
# Texts compared byte by byte

Editors compare sort keys by their UTF-8 bytes. The encoding keeps the order of the characters:
of two characters the smaller one has the smaller bytes, and neither encoding begins the other.
Hence the order of the bytes is the order of the texts.
-/

namespace CodeCompletion.Text

def bytes (s : String) : List UInt8 := s.toByteArray.data.toList

theorem bytes_eq_flatMap (s : String) : bytes s = s.toList.flatMap String.utf8EncodeChar := by
  have h : s.toByteArray = (s.toList.flatMap String.utf8EncodeChar).toByteArray := by
    conv => lhs; rw [← String.ofList_toList (s := s)]
    rfl
  rw [bytes, h, List.data_toByteArray]

/-! ### One character -/

theorem byte_cons_lt (m n : Nat) (x y : List UInt8) (hn : n < 256) (hle : m ≤ n)
    (htail : m = n → x < y) : UInt8.ofNat m :: x < UInt8.ofNat n :: y := by
  rw [List.cons_lt_cons_iff]
  by_cases h : m = n
  · exact Or.inr ⟨congrArg UInt8.ofNat h, htail h⟩
  · left
    rw [UInt8.lt_iff_toNat_lt, UInt8.toNat_ofNat', UInt8.toNat_ofNat']
    omega

theorem lead_cons_lt (m n : Nat) (x y : List UInt8) (hn : n < 256) (hlt : m < n) :
    UInt8.ofNat m :: x < UInt8.ofNat n :: y :=
  byte_cons_lt m n x y hn (by omega) (fun he => by omega)

theorem codePoint_lt (c : Char) : c.val.toNat < 0x110000 := by
  rcases c.valid with hv | ⟨_, hv⟩
  · exact Nat.lt_trans hv (by decide)
  · exact hv

theorem encode_append_lt (c d : Char) (h : c < d) (x y : List UInt8) :
    String.utf8EncodeChar c ++ x < String.utf8EncodeChar d ++ y := by
  have hlt : c.val.toNat < d.val.toNat := h
  have hd := codePoint_lt d
  simp only [String.utf8EncodeChar]
  generalize c.val.toNat = m at hlt
  generalize d.val.toNat = n at hlt hd
  -- Encodings of different lengths differ in the first byte. Where the lengths agree the bytes
  -- are digits to the base 64, and the first digit in which they differ decides.
  by_cases h1 : m ≤ 0x7f
  · rw [if_pos h1]
    split
    · exact lead_cons_lt _ _ _ _ (by omega) (by omega)
    · split
      · exact lead_cons_lt _ _ _ _ (by omega) (by omega)
      · split <;> exact lead_cons_lt _ _ _ _ (by omega) (by omega)
  · rw [if_neg h1, if_neg (by omega : ¬ n ≤ 0x7f)]
    by_cases h2 : m ≤ 0x7ff
    · rw [if_pos h2]
      split
      · exact byte_cons_lt _ _ _ _ (by omega) (by omega) fun e1 =>
          lead_cons_lt _ _ _ _ (by omega) (by omega)
      · split <;> exact lead_cons_lt _ _ _ _ (by omega) (by omega)
    · rw [if_neg h2, if_neg (by omega : ¬ n ≤ 0x7ff)]
      by_cases h3 : m ≤ 0xffff
      · rw [if_pos h3]
        split
        · exact byte_cons_lt _ _ _ _ (by omega) (by omega) fun e1 =>
            byte_cons_lt _ _ _ _ (by omega) (by omega) fun e2 =>
              lead_cons_lt _ _ _ _ (by omega) (by omega)
        · exact lead_cons_lt _ _ _ _ (by omega) (by omega)
      · rw [if_neg h3, if_neg (by omega : ¬ n ≤ 0xffff)]
        exact byte_cons_lt _ _ _ _ (by omega) (by omega) fun e1 =>
          byte_cons_lt _ _ _ _ (by omega) (by omega) fun e2 =>
            byte_cons_lt _ _ _ _ (by omega) (by omega) fun e3 =>
              lead_cons_lt _ _ _ _ (by omega) (by omega)

theorem encode_ne_nil (c : Char) : String.utf8EncodeChar c ≠ [] := by
  intro h
  have hlen := congrArg List.length h
  rw [String.length_utf8EncodeChar] at hlen
  have hpos := c.utf8Size_pos
  rw [List.length_nil] at hlen
  omega

/-! ### Whole texts -/

theorem flatMap_encode_lt (cs ds : List Char) (h : cs < ds) :
    cs.flatMap String.utf8EncodeChar < ds.flatMap String.utf8EncodeChar := by
  induction cs generalizing ds with
  | nil =>
    cases ds with
    | nil => exact absurd h (List.lt_irrefl [])
    | cons d ds =>
      obtain ⟨b, bs, hb⟩ := List.exists_cons_of_ne_nil (encode_ne_nil d)
      rw [List.flatMap_nil, List.flatMap_cons, hb]
      exact List.nil_lt_cons ..
  | cons c cs ih =>
    cases ds with
    | nil => exact absurd h (List.not_lt_nil _)
    | cons d ds =>
      rw [List.flatMap_cons, List.flatMap_cons]
      rcases List.cons_lt_cons_iff.mp h with hcd | ⟨rfl, htail⟩
      · exact encode_append_lt c d hcd _ _
      · exact List.append_left_lt (ih ds htail)

/-- The order of the bytes is the order of the texts. -/
theorem bytes_lt_bytes_iff (a b : String) : bytes a < bytes b ↔ a < b := by
  have mono (a b : String) (h : a < b) : bytes a < bytes b := by
    rw [bytes_eq_flatMap, bytes_eq_flatMap]
    exact flatMap_encode_lt a.toList b.toList h
  constructor
  · intro h
    by_cases hab : a < b
    · exact hab
    · rcases Decidable.em (a = b) with rfl | hne
      · exact absurd h (List.lt_irrefl _)
      · have hle : b ≤ a := hab
        have hba : b < a := by
          by_cases hba : b < a
          · exact hba
          · exact absurd (String.le_antisymm hba hle) hne
        exact absurd h (List.lt_asymm (mono b a hba))
  · exact mono a b

end CodeCompletion.Text
