import CodeCompletion.Span

namespace CodeCompletion

namespace Text

theorem splitAt_floorBoundary (n : Nat) (s : List Char) :
    splitAt (floorBoundary n s) s = splitAt n s := by
  induction s generalizing n with
  | nil => rfl
  | cons c s ih =>
    by_cases hc : c.utf8Size ≤ n
    · have hfloor : floorBoundary n (c :: s) = c.utf8Size + floorBoundary (n - c.utf8Size) s := by
        simp only [floorBoundary, splitAt, if_pos hc, byteLength]
      have hle : c.utf8Size ≤ c.utf8Size + floorBoundary (n - c.utf8Size) s := Nat.le_add_right ..
      rw [hfloor, splitAt, if_pos hle, Nat.add_sub_cancel_left, ih, splitAt, if_pos hc]
    · have hpos : 0 < c.utf8Size := c.utf8Size_pos
      have hfloor : floorBoundary n (c :: s) = 0 := by
        simp only [floorBoundary, splitAt, if_neg hc, byteLength]
      rw [hfloor, splitAt, if_neg (by omega), splitAt, if_neg hc]

theorem floorBoundary_floorBoundary (n : Nat) (s : List Char) :
    floorBoundary (floorBoundary n s) s = floorBoundary n s := by
  rw [floorBoundary, splitAt_floorBoundary]
  rfl

theorem isBoundary_iff (n : Nat) (s : List Char) :
    isBoundary n s = true ↔ floorBoundary n s = n := beq_iff_eq

theorem isBoundary_floorBoundary (n : Nat) (s : List Char) :
    isBoundary (floorBoundary n s) s = true :=
  (isBoundary_iff _ s).mpr (floorBoundary_floorBoundary n s)

theorem floorBoundary_mono (s : List Char) {a b : Nat} (h : a ≤ b) :
    floorBoundary a s ≤ floorBoundary b s := by
  induction s generalizing a b with
  | nil => exact Nat.le_refl _
  | cons c s ih =>
    simp only [floorBoundary, splitAt]
    by_cases ha : c.utf8Size ≤ a
    · rw [if_pos ha, if_pos (Nat.le_trans ha h)]
      simp only [byteLength]
      exact Nat.add_le_add_left (ih (Nat.sub_le_sub_right h _)) _
    · rw [if_neg ha]
      exact Nat.zero_le _

/-- The rounded offset is the greatest boundary up to an offset. -/
theorem le_floorBoundary_iff (n b : Nat) (s : List Char) (hb : isBoundary b s = true) :
    b ≤ floorBoundary n s ↔ b ≤ n := by
  constructor
  · intro h
    exact Nat.le_trans h (floorBoundary_le n s)
  · intro h
    rw [← (isBoundary_iff b s).mp hb]
    exact floorBoundary_mono s h

end Text

namespace Span

def OnBoundaries (a : Span) (text : String) : Prop :=
  Text.isBoundary a.start text.toList = true ∧ Text.isBoundary a.stop text.toList = true

instance (a : Span) (text : String) : Decidable (a.OnBoundaries text) :=
  inferInstanceAs (Decidable (_ ∧ _))

variable {a : Span} {text : String} (h : a.OnBoundaries text) (offset : Nat)
  (hoff : offset ≠ Text.floorBoundary offset text.toList)

include h hoff

theorem stop_lt_iff : a.stop < offset ↔ a.stop < Text.floorBoundary offset text.toList + 1 := by
  have hstop := Text.le_floorBoundary_iff offset _ _ h.2
  have hfloor := Text.floorBoundary_le offset text.toList
  omega

theorem le_start_iff : offset ≤ a.start ↔
    Text.floorBoundary offset text.toList ≤ a.start ∧
      a.start ≠ Text.floorBoundary offset text.toList := by
  have hstart := Text.le_floorBoundary_iff offset _ _ h.1
  have hfloor := Text.floorBoundary_le offset text.toList
  omega

theorem touches_iff : a.touches offset = true ↔
    a.touches (Text.floorBoundary offset text.toList) = true ∧
      a.stop ≠ Text.floorBoundary offset text.toList := by
  have hstart := Text.le_floorBoundary_iff offset _ _ h.1
  have hstop := Text.le_floorBoundary_iff offset _ _ h.2
  have hfloor := Text.floorBoundary_le offset text.toList
  simp only [touches, Bool.and_eq_true, decide_eq_true_eq]
  omega

end Span

end CodeCompletion
