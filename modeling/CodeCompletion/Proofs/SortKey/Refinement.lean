import CodeCompletion.Proofs.SortKey.Order

namespace CodeCompletion.SortKey

/-! ### Texts in two parts -/

/-- Whether all characters of a key are above the one in front of a rank. -/
def IsAbove (key : String) : Prop := ∀ c ∈ key.toList, '\x01' < c

instance (key : String) : Decidable (IsAbove key) :=
  decidable_of_iff (key.toList.all fun c => '\x01' < c) (by simp [IsAbove])

theorem append_lt_append_iff_of_above (xs ys tail tail' : List Char)
    (hxs : ∀ c ∈ xs, '\x01' < c) (hys : ∀ c ∈ ys, '\x01' < c)
    (htail : ∀ c ∈ tail.head?, c = '\x01') (htail' : ∀ c ∈ tail'.head?, c = '\x01') :
    xs ++ tail < ys ++ tail' ↔ xs < ys ∨ xs = ys ∧ tail < tail' := by
  induction xs generalizing ys with
  | nil =>
    cases ys with
    | nil => simp
    | cons d ys =>
      -- The shorter key goes on with U+0001 or ends here; either way it is less.
      have hd := hys d (List.mem_cons_self ..)
      have hlt : tail < d :: (ys ++ tail') := by
        cases tail with
        | nil => exact List.nil_lt_cons ..
        | cons c tail => exact List.cons_lt_cons_iff.mpr (Or.inl (htail c rfl ▸ hd))
      exact iff_of_true hlt (Or.inl (List.nil_lt_cons ..))
  | cons c xs ih =>
    have hc := hxs c (List.mem_cons_self ..)
    cases ys with
    | nil =>
      refine iff_of_false (fun hlt => ?_) (by simp)
      cases tail' with
      | nil => exact List.not_lt_nil _ hlt
      | cons d tail' =>
        rw [htail' d rfl] at hlt
        rcases List.cons_lt_cons_iff.mp hlt with h | ⟨h, _⟩
        · exact absurd (Char.lt_trans h hc) (Char.lt_irrefl _)
        · exact absurd (h ▸ hc) (Char.lt_irrefl _)
    | cons d ys =>
      have htail := ih ys (fun e he => hxs e (List.mem_cons_of_mem _ he))
        (fun e he => hys e (List.mem_cons_of_mem _ he))
      rw [List.cons_append, List.cons_append, List.cons_lt_cons_iff, List.cons_lt_cons_iff, htail,
        List.cons.injEq, and_or_left, or_assoc, and_assoc]

theorem append_lt_append_iff_of_length (xs ys tail tail' : List Char)
    (hlen : xs.length = ys.length) :
    xs ++ tail < ys ++ tail' ↔ xs < ys ∨ xs = ys ∧ tail < tail' := by
  induction xs generalizing ys with
  | nil =>
    rw [List.length_eq_zero_iff.mp hlen.symm]
    simp
  | cons c xs ih =>
    cases ys with
    | nil => cases hlen
    | cons d ys =>
      have htail := ih ys (Nat.succ.inj hlen)
      rw [List.cons_append, List.cons_append, List.cons_lt_cons_iff, List.cons_lt_cons_iff, htail,
        List.cons.injEq, and_or_left, or_assoc, and_assoc]

/-! ### Ranks -/

theorem length_toDigits_le_four (n : Nat) (h : n < 10000) : (Nat.toDigits 10 n).length ≤ 4 :=
  (Nat.length_toDigits_le_iff (by decide) (by decide)).mpr h

theorem decimal_lt_decimal_iff (i j : Nat) (hi : i < 10000) (hj : j < 10000) :
    decimal 4 i < decimal 4 j ↔ i < j := by
  have hlt (i j : Nat) (hi : i < 10000) (hj : j < 10000) (h : i < j) :
      decimal 4 i < decimal 4 j :=
    decimal_lt_decimal 4 i j h (length_toDigits_le_four i hi) (length_toDigits_le_four j hj)
  refine ⟨fun h => ?_, hlt i j hi hj⟩
  rcases Nat.lt_trichotomy i j with hij | rfl | hji
  · exact hij
  · exact absurd h (String.lt_irrefl _)
  · exact absurd h (String.lt_asymm (hlt j i hj hi hji))

theorem decimal_inj_iff (i j : Nat) : (decimal 4 i).toList = (decimal 4 j).toList ↔ i = j := by
  refine ⟨fun h => ?_, fun h => by rw [h]⟩
  rw [← ofDigitChars_decimal 4 i, h, ofDigitChars_decimal]

def refineIf (refines : Bool) (key : String) (rank : UInt16) : String :=
  if refines then refine key rank else key

def level (refines : Bool) (rank : UInt16) : Nat := if refines then rank.toNat else 0

def rankTail (refines : Bool) (rank : UInt16) : List Char :=
  if refines then '\x01' :: (decimal 4 rank.toNat).toList else []

theorem toList_refineIf (refines : Bool) (key : String) (rank : UInt16) :
    (refineIf refines key rank).toList = key.toList ++ rankTail refines rank := by
  cases refines with
  | false => exact (List.append_nil _).symm
  | true =>
    rw [refineIf, if_pos rfl, refine, String.toList_append, String.toList_append,
      List.append_assoc]
    rfl

theorem rankTail_append_lt_iff (refines : Bool) (i j : UInt16) (tail tail' : List Char)
    (hi : refines = true → i.toNat < 10000) (hj : refines = true → j.toNat < 10000) :
    rankTail refines i ++ tail < rankTail refines j ++ tail' ↔
      level refines i < level refines j ∨ level refines i = level refines j ∧ tail < tail' := by
  cases refines with
  | false => simp [rankTail, level]
  | true =>
    have hlen : (decimal 4 i.toNat).toList.length = (decimal 4 j.toNat).toList.length := by
      rw [length_decimal 4 _ (length_toDigits_le_four _ (hi rfl)),
        length_decimal 4 _ (length_toDigits_le_four _ (hj rfl))]
    have hlt : (decimal 4 i.toNat).toList < (decimal 4 j.toNat).toList ↔ i.toNat < j.toNat :=
      decimal_lt_decimal_iff i.toNat j.toNat (hi rfl) (hj rfl)
    simp only [rankTail, level, if_true, List.cons_append]
    rw [List.cons_lt_cons_iff, append_lt_append_iff_of_length _ _ _ _ hlen, hlt, decimal_inj_iff]
    simp

theorem head?_rankTail (refines : Bool) (rank : UInt16) (tail : List Char)
    (htail : ∀ c ∈ tail.head?, c = '\x01') :
    ∀ c ∈ (rankTail refines rank ++ tail).head?, c = '\x01' := by
  cases refines with
  | false => exact htail
  | true =>
    intro c hc
    exact (Option.mem_some.mp hc).symm

def refineThrice (first second third : Bool) (key : String) (i j k : UInt16) : String :=
  refineIf third (refineIf second (refineIf first key i) j) k

/-- Keys that are refined at the same times compare like tuples. -/
theorem refineThrice_lt_iff (first second third : Bool) (a b : String) (i j k i' j' k' : UInt16)
    (ha : IsAbove a) (hb : IsAbove b)
    (hi : first = true → i.toNat < 10000) (hi' : first = true → i'.toNat < 10000)
    (hj : second = true → j.toNat < 10000) (hj' : second = true → j'.toNat < 10000)
    (hk : third = true → k.toNat < 10000) (hk' : third = true → k'.toNat < 10000) :
    refineThrice first second third a i j k < refineThrice first second third b i' j' k' ↔
      a < b ∨ a = b ∧ (level first i < level first i' ∨ level first i = level first i' ∧
        (level second j < level second j' ∨ level second j = level second j' ∧
          level third k < level third k')) := by
  have hlist : refineThrice first second third a i j k <
        refineThrice first second third b i' j' k' ↔
      a.toList ++ (rankTail first i ++ (rankTail second j ++ (rankTail third k ++ []))) <
        b.toList ++ (rankTail first i' ++ (rankTail second j' ++ (rankTail third k' ++ []))) := by
    change (refineThrice first second third a i j k).toList <
        (refineThrice first second third b i' j' k').toList ↔ _
    simp only [refineThrice, toList_refineIf, List.append_assoc, List.append_nil]
  have hnil : ∀ c ∈ ([] : List Char).head?, c = '\x01' := nofun
  rw [hlist, append_lt_append_iff_of_above _ _ _ _ ha hb,
    rankTail_append_lt_iff first _ _ _ _ hi hi', rankTail_append_lt_iff second _ _ _ _ hj hj',
    rankTail_append_lt_iff third _ _ _ _ hk hk', String.toList_inj]
  · simp only [List.not_lt_nil, and_false, or_false]
    exact Iff.rfl
  · exact head?_rankTail _ _ _ (head?_rankTail _ _ _ (head?_rankTail _ _ _ hnil))
  · exact head?_rankTail _ _ _ (head?_rankTail _ _ _ (head?_rankTail _ _ _ hnil))

end CodeCompletion.SortKey
