import CodeCompletion.Proofs.SortKey.Refinement

/-!
# Ranks of five digits

Four digits are written for a rank, and a fifth one from 10000 on. As texts, ranks compare by their
first four digits and only then by the fifth, so that a rank of five digits comes in front of smaller
ones of four. All other ranks compare like numbers, also below further refinements.
-/

namespace CodeCompletion.SortKey

open CodeCompletion.Text

/-- Whether a rank of five digits is written in front of a smaller one of four. -/
def Overtakes (high low : UInt16) : Prop :=
  low.toNat < 10000 ∧ 10000 ≤ high.toNat ∧ high.toNat / 10 < low.toNat

instance (high low : UInt16) : Decidable (Overtakes high low) :=
  inferInstanceAs (Decidable (_ ∧ _ ∧ _))

/-! ### The digits of a rank -/

/-- The number that the first four digits of a rank make. -/
def leading (rank : UInt16) : Nat := if rank.toNat < 10000 then rank.toNat else rank.toNat / 10

def fifthDigit (rank : UInt16) : List Char :=
  if rank.toNat < 10000 then [] else [Nat.digitChar (rank.toNat % 10)]

theorem leading_lt (rank : UInt16) : leading rank < 10000 := by
  have hrank := rank.toNat_lt
  unfold leading
  split <;> omega

theorem toList_rank (rank : UInt16) :
    (decimal 4 rank.toNat).toList = (decimal 4 (leading rank)).toList ++ fifthDigit rank := by
  unfold leading fifthDigit
  split
  case isTrue h => rw [List.append_nil]
  case isFalse h =>
    -- Neither the rank nor what its first four digits make is filled up with zeros.
    have hlong : ¬ (Nat.toDigits 10 (rank.toNat / 10)).length ≤ 3 := by
      rw [Nat.length_toDigits_le_iff (by decide) (by decide)]
      omega
    have hsplit := Nat.toDigits_of_base_le (b := 10) (n := rank.toNat) (by decide) (by omega)
    have hlength := congrArg List.length hsplit
    rw [List.length_append, List.length_singleton] at hlength
    rw [toList_decimal, toList_decimal, Nat.sub_eq_zero_of_le (by omega),
      Nat.sub_eq_zero_of_le (by omega), hsplit]
    rfl

theorem one_lt_digitChar (n : Nat) (h : n < 10) : '\x01' < n.digitChar := by
  show 1 < n.digitChar.toNat
  rw [Nat.toNat_digitChar_of_lt_ten h]
  omega

theorem digitChar_lt_digitChar_iff (m n : Nat) (hm : m < 10) (hn : n < 10) :
    m.digitChar < n.digitChar ↔ m < n := by
  show m.digitChar.toNat < n.digitChar.toNat ↔ m < n
  rw [Nat.toNat_digitChar_of_lt_ten hm, Nat.toNat_digitChar_of_lt_ten hn]
  omega

theorem digitChar_inj_iff (m n : Nat) (hm : m < 10) (hn : n < 10) :
    m.digitChar = n.digitChar ↔ m = n := by
  rw [← Char.toNat_inj, Nat.toNat_digitChar_of_lt_ten hm, Nat.toNat_digitChar_of_lt_ten hn]
  omega

theorem fifthDigit_lt_iff (r s : UInt16) :
    fifthDigit r < fifthDigit s ↔
      10000 ≤ s.toNat ∧ (r.toNat < 10000 ∨ r.toNat % 10 < s.toNat % 10) := by
  have hdigit := digitChar_lt_digitChar_iff (r.toNat % 10) (s.toNat % 10)
    (Nat.mod_lt _ (by decide)) (Nat.mod_lt _ (by decide))
  unfold fifthDigit
  split <;> split <;> simp [List.cons_lt_cons_iff, hdigit] <;> omega

theorem fifthDigit_eq_iff (r s : UInt16) :
    fifthDigit r = fifthDigit s ↔
      r.toNat < 10000 ∧ s.toNat < 10000 ∨
        10000 ≤ r.toNat ∧ 10000 ≤ s.toNat ∧ r.toNat % 10 = s.toNat % 10 := by
  have hdigit := digitChar_inj_iff (r.toNat % 10) (s.toNat % 10)
    (Nat.mod_lt _ (by decide)) (Nat.mod_lt _ (by decide))
  unfold fifthDigit
  split <;> split <;> simp [hdigit] <;> omega

theorem digits_eq_iff (r s : UInt16) :
    leading r = leading s ∧ fifthDigit r = fifthDigit s ↔ r = s := by
  rw [fifthDigit_eq_iff, ← UInt16.toNat_inj]
  unfold leading
  split <;> split <;> omega

/-- The texts of ranks compare like numbers, unless one of the two overtakes the other. -/
theorem digits_lt_iff (r s : UInt16) :
    leading r < leading s ∨ leading r = leading s ∧ fifthDigit r < fifthDigit s ↔
      r < s ∧ ¬ Overtakes s r ∨ Overtakes r s := by
  rw [fifthDigit_lt_iff, UInt16.lt_iff_toNat_lt]
  unfold leading Overtakes
  split <;> split <;> omega

/-! ### Refined keys -/

section Tails

variable (r s : UInt16) (tail tail' : List Char) (htail : ∀ c ∈ tail.head?, c = '\x01')
  (htail' : ∀ c ∈ tail'.head?, c = '\x01')

include htail htail'

theorem rank_append_lt_iff :
    (decimal 4 r.toNat).toList ++ tail < (decimal 4 s.toNat).toList ++ tail' ↔
      (r < s ∧ ¬ Overtakes s r ∨ Overtakes r s) ∨ r = s ∧ tail < tail' := by
  have hlength : (decimal 4 (leading r)).toList.length = (decimal 4 (leading s)).toList.length := by
    rw [length_decimal 4 _ (length_toDigits_le_four _ (leading_lt r)),
      length_decimal 4 _ (length_toDigits_le_four _ (leading_lt s))]
  have hlt : (decimal 4 (leading r)).toList < (decimal 4 (leading s)).toList ↔
      leading r < leading s :=
    decimal_lt_decimal_iff _ _ (leading_lt r) (leading_lt s)
  have habove (rank : UInt16) : ∀ c ∈ fifthDigit rank, '\x01' < c := by
    intro c hc
    unfold fifthDigit at hc
    split at hc
    · cases hc
    · rw [List.mem_singleton.mp hc]
      exact one_lt_digitChar _ (Nat.mod_lt _ (by decide))
  rw [toList_rank r, toList_rank s, List.append_assoc, List.append_assoc,
    append_lt_append_iff_of_length _ _ _ _ hlength, hlt, decimal_inj_iff,
    append_lt_append_iff_of_above _ _ _ _ (habove r) (habove s) htail htail', and_or_left,
    ← or_assoc, ← and_assoc, digits_eq_iff, digits_lt_iff]

theorem refine_append_lt_iff (base : String) :
    (refine base r).toList ++ tail < (refine base s).toList ++ tail' ↔
      (r < s ∧ ¬ Overtakes s r ∨ Overtakes r s) ∨ r = s ∧ tail < tail' := by
  have hsplit (rank : UInt16) (rest : List Char) : (refine base rank).toList ++ rest =
      (base ++ "\x01").toList ++ ((decimal 4 rank.toNat).toList ++ rest) := by
    rw [refine, String.toList_append, List.append_assoc]
  rw [hsplit r, hsplit s, append_lt_append_iff_of_length _ _ _ _ rfl,
    rank_append_lt_iff r s tail tail' htail htail']
  simp only [List.lt_irrefl, true_and, false_or]

end Tails

theorem bytes_refine_lt_iff (base : String) (r s : UInt16) :
    bytes (refine base r) < bytes (refine base s) ↔ r < s ∧ ¬ Overtakes s r ∨ Overtakes r s := by
  have hnil : ∀ c ∈ ([] : List Char).head?, c = '\x01' := nofun
  have hlt := refine_append_lt_iff r s [] [] hnil hnil base
  simp only [List.append_nil, List.lt_irrefl, and_false, or_false] at hlt
  rw [bytes_lt_bytes_iff]
  exact hlt

theorem bytes_refine_refine_lt_iff (base : String) (r s r' s' : UInt16) :
    bytes (refine (refine base r) r') < bytes (refine (refine base s) s') ↔
      (r < s ∧ ¬ Overtakes s r ∨ Overtakes r s) ∨
        r = s ∧ rankTail true r' < rankTail true s' := by
  have hhead (rank : UInt16) : ∀ c ∈ (rankTail true rank).head?, c = '\x01' := fun c hc =>
    (Option.mem_some.mp hc).symm
  have hagain (key : String) (rank : UInt16) :
      (refine key rank).toList = key.toList ++ rankTail true rank := toList_refineIf true key rank
  have hlt := refine_append_lt_iff r s (rankTail true r') (rankTail true s') (hhead r') (hhead s')
    base
  rw [← hagain, ← hagain] at hlt
  rw [bytes_lt_bytes_iff]
  exact hlt

theorem lt_of_overtakes {high low : UInt16} (h : Overtakes high low) : low < high := by
  obtain ⟨hlow, hhigh, -⟩ := h
  rw [UInt16.lt_iff_toNat_lt]
  omega

/-- Keys of one base compare like their ranks, and further refinements count less, exactly if no
rank of five digits overtakes a smaller one of four. -/
theorem refined_keys_follow_ranks_iff (base : String) (r s : UInt16) :
    ((bytes (refine base r) < bytes (refine base s) ↔ r < s) ↔
        ¬ Overtakes r s ∧ ¬ Overtakes s r) ∧
      ∀ r' s' : UInt16,
        (r < s → bytes (refine (refine base r) r') < bytes (refine (refine base s) s')) ↔
          ¬ Overtakes s r := by
  constructor
  · rw [bytes_refine_lt_iff]
    constructor
    · intro h
      refine ⟨fun hrs => ?_, fun hsr => ?_⟩
      · exact UInt16.lt_asymm (h.mp (Or.inr hrs)) (lt_of_overtakes hrs)
      · rcases h.mpr (lt_of_overtakes hsr) with ⟨-, hnot⟩ | hrs
        · exact hnot hsr
        · exact UInt16.lt_asymm (lt_of_overtakes hrs) (lt_of_overtakes hsr)
    · rintro ⟨hrs, hsr⟩
      simp only [hrs, hsr, not_false_eq_true, and_true, or_false]
  · intro r' s'
    rw [bytes_refine_refine_lt_iff]
    constructor
    · intro h hsr
      rcases h (lt_of_overtakes hsr) with (⟨-, hnot⟩ | hrs) | ⟨rfl, -⟩
      · exact hnot hsr
      · exact UInt16.lt_asymm (lt_of_overtakes hrs) (lt_of_overtakes hsr)
      · exact UInt16.lt_irrefl r (lt_of_overtakes hsr)
    · exact fun hsr hlt => Or.inl (Or.inl ⟨hlt, hsr⟩)

/-- The rank 10000 comes in front of 9999, whatever refines the keys further. -/
theorem ten_thousandth_rank_overtakes :
    (9999 : UInt16) < 10000 ∧
      ¬ bytes (refine "11" 9999) < bytes (refine "11" 10000) ∧
      ¬ bytes (refine (refine "11" 9999) 0) < bytes (refine (refine "11" 10000) 1) := by
  rw [bytes_refine_lt_iff, bytes_refine_refine_lt_iff]
  decide

end CodeCompletion.SortKey
