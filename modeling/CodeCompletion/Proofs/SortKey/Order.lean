import CodeCompletion.Proofs.Text.ByteOrder
import CodeCompletion.SortKey
import Mathlib.Algebra.Group.Nat.Defs

/-!
# The order of sort keys

Numbers written with the same number of digits compare as texts like numbers. A key that holds
no U+0000 and gets one appended, with its position behind it, therefore compares by the old key
first and by the position second, also where one old key begins the other.
-/

namespace CodeCompletion.SortKey

/-! ### Numbers of a fixed width -/

theorem toList_decimal (width n : Nat) :
    (decimal width n).toList =
      List.replicate (width - (Nat.toDigits 10 n).length) '0' ++ Nat.toDigits 10 n := by
  rw [decimal, String.toList_ofList, List.leftpad]

theorem length_decimal (width n : Nat) (h : (Nat.toDigits 10 n).length ≤ width) :
    (decimal width n).toList.length = width := by
  rw [toList_decimal, List.length_append, List.length_replicate]
  omega

theorem isDigit_of_mem_decimal (width n : Nat) (c : Char) (h : c ∈ (decimal width n).toList) :
    c.isDigit = true := by
  rw [toList_decimal, List.mem_append] at h
  rcases h with h | h
  · rw [List.eq_of_mem_replicate h]
    rfl
  · exact Nat.isDigit_of_mem_toDigits (by decide) (by decide) h

theorem ofDigitChars_decimal (width n : Nat) :
    Nat.ofDigitChars 10 (decimal width n).toList 0 = n := by
  rw [toList_decimal, Nat.ofDigitChars_append, Nat.ofDigitChars_replicate_zero, Nat.mul_zero]
  exact Nat.ofDigitChars_toDigits (by decide) (by decide)

theorem toNat_of_isDigit (c : Char) (h : c.isDigit = true) : 48 ≤ c.toNat ∧ c.toNat ≤ 57 := by
  rw [Char.isDigit, Bool.and_eq_true, decide_eq_true_eq, decide_eq_true_eq] at h
  exact h

theorem ofDigitChars_cons_zero (c : Char) (cs : List Char) :
    Nat.ofDigitChars 10 (c :: cs) 0 =
      10 ^ cs.length * (c.toNat - 48) + Nat.ofDigitChars 10 cs 0 := by
  have hz : '0'.toNat = 48 := rfl
  rw [Nat.ofDigitChars_cons, Nat.ofDigitChars_eq_ofDigitChars_zero, hz, Nat.mul_zero, Nat.zero_add]

theorem ofDigitChars_lt (cs : List Char) (h : ∀ c ∈ cs, c.isDigit = true) :
    Nat.ofDigitChars 10 cs 0 < 10 ^ cs.length := by
  induction cs with
  | nil => simp
  | cons c cs ih =>
    have hc := toNat_of_isDigit c (h c (List.mem_cons_self ..))
    have htail := ih fun d hd => h d (List.mem_cons_of_mem _ hd)
    have hmul : 10 ^ cs.length * (c.toNat - 48) ≤ 10 ^ cs.length * 9 :=
      Nat.mul_le_mul_left _ (by omega)
    rw [ofDigitChars_cons_zero, List.length_cons, Nat.pow_succ]
    omega

theorem digits_lt (xs ys : List Char) (hlen : xs.length = ys.length)
    (hx : ∀ c ∈ xs, c.isDigit = true) (hy : ∀ c ∈ ys, c.isDigit = true)
    (h : Nat.ofDigitChars 10 xs 0 < Nat.ofDigitChars 10 ys 0) : xs < ys := by
  induction xs generalizing ys with
  | nil =>
    have hnil : ys = [] := List.length_eq_zero_iff.mp hlen.symm
    rw [hnil] at h
    omega
  | cons c xs ih =>
    cases ys with
    | nil => simp at hlen
    | cons d ys =>
      have hc := toNat_of_isDigit c (hx c (List.mem_cons_self ..))
      have hd := toNat_of_isDigit d (hy d (List.mem_cons_self ..))
      have hys := ofDigitChars_lt ys fun e he => hy e (List.mem_cons_of_mem _ he)
      rw [ofDigitChars_cons_zero, ofDigitChars_cons_zero] at h
      rw [List.length_cons, List.length_cons, Nat.add_right_cancel_iff] at hlen
      rw [hlen] at h
      rw [List.cons_lt_cons_iff]
      by_cases hcd : c = d
      · subst hcd
        refine Or.inr ⟨rfl, ih ys hlen ?_ ?_ (by omega)⟩
        · exact fun e he => hx e (List.mem_cons_of_mem _ he)
        · exact fun e he => hy e (List.mem_cons_of_mem _ he)
      · left
        have hne : c.toNat ≠ d.toNat := fun he => hcd (Char.toNat_inj.mp he)
        -- A greater first digit outweighs all that may follow.
        have hlt : c.toNat < d.toNat := by
          by_cases hgt : d.toNat < c.toNat
          · have hmul := Nat.mul_le_mul_left (10 ^ ys.length)
              (show d.toNat - 48 + 1 ≤ c.toNat - 48 by omega)
            rw [Nat.mul_succ] at hmul
            omega
          · omega
        exact hlt

theorem decimal_lt_decimal (width i j : Nat) (hij : i < j)
    (hi : (Nat.toDigits 10 i).length ≤ width) (hj : (Nat.toDigits 10 j).length ≤ width) :
    decimal width i < decimal width j := by
  refine digits_lt (decimal width i).toList (decimal width j).toList ?_
    (isDigit_of_mem_decimal width i) (isDigit_of_mem_decimal width j) ?_
  · rw [length_decimal width i hi, length_decimal width j hj]
  · rw [ofDigitChars_decimal, ofDigitChars_decimal]
    exact hij

/-! ### Width of the positions -/

theorem four_le_indexWidth (length : Nat) : 4 ≤ indexWidth length := Nat.le_max_left ..

theorem length_toDigits_le_indexWidth (length i : Nat) (h : i < length) :
    (Nat.toDigits 10 i).length ≤ indexWidth length := by
  have hpos : 0 < (Nat.toDigits 10 (max (length - 1) 1)).length := Nat.length_toDigits_pos
  have hlast := (Nat.length_toDigits_le_iff (by decide) hpos).mp (Nat.le_refl _)
  have hfit : (Nat.toDigits 10 i).length ≤ (Nat.toDigits 10 (max (length - 1) 1)).length :=
    (Nat.length_toDigits_le_iff (by decide) hpos).mpr (by omega)
  exact Nat.le_trans hfit (Nat.le_max_right ..)

/-! ### Positions behind keys -/

/-- Whether a key leaves U+0000 to the final positions. -/
def IsPlain (key : String) : Prop := '\x00' ∉ key.toList

theorem append_nul_lt (xs ys tail tail' : List Char) (hx : '\x00' ∉ xs) (hy : '\x00' ∉ ys)
    (hle : ¬ ys < xs) (htail : tail < tail') : xs ++ '\x00' :: tail < ys ++ '\x00' :: tail' := by
  induction xs generalizing ys with
  | nil =>
    cases ys with
    | nil => exact List.cons_lt_cons_iff.mpr (Or.inr ⟨rfl, htail⟩)
    | cons d ys =>
      -- The shorter key ends where the longer one has a character, which is above U+0000.
      have hd : d ≠ '\x00' := fun he => hy (he ▸ List.mem_cons_self ..)
      have hpos : 0 < d.toNat := by
        rcases Nat.eq_zero_or_pos d.toNat with he | he
        · exact absurd (Char.toNat_inj.mp he) hd
        · exact he
      exact List.cons_lt_cons_iff.mpr (Or.inl hpos)
  | cons c xs ih =>
    cases ys with
    | nil => exact absurd (List.nil_lt_cons c xs) hle
    | cons d ys =>
      rw [List.cons_append, List.cons_append, List.cons_lt_cons_iff]
      rw [List.cons_lt_cons_iff, not_or, not_and] at hle
      by_cases hcd : c = d
      · refine Or.inr ⟨hcd, ih ys ?_ ?_ (hle.2 hcd.symm)⟩
        · exact fun hm => hx (List.mem_cons_of_mem _ hm)
        · exact fun hm => hy (List.mem_cons_of_mem _ hm)
      · left
        have hne : c.toNat ≠ d.toNat := fun he => hcd (Char.toNat_inj.mp he)
        have hge : ¬ d.toNat < c.toNat := hle.1
        show c.toNat < d.toNat
        omega

theorem toList_unique (width index : Nat) (key : String) :
    (unique width index key).toList = key.toList ++ '\x00' :: (decimal width index).toList := by
  rw [unique, String.toList_append, String.toList_append, List.append_assoc]
  rfl

theorem unique_lt_unique (width i j : Nat) (a b : String) (ha : IsPlain a) (hb : IsPlain b)
    (hab : a ≤ b) (hij : i < j) (hi : (Nat.toDigits 10 i).length ≤ width)
    (hj : (Nat.toDigits 10 j).length ≤ width) : unique width i a < unique width j b := by
  have hlt := append_nul_lt a.toList b.toList _ _ ha hb hab (decimal_lt_decimal width i j hij hi hj)
  rw [← toList_unique, ← toList_unique] at hlt
  exact hlt

end CodeCompletion.SortKey
