/-!
# Byte offsets

Positions in a text count the bytes of its UTF-8 form. A position is a boundary when no
character lies across it. Main statements: `floorBoundary` gives the greatest boundary that
lies neither behind the position nor behind the end, and `splitAt` loses no character.
-/

namespace CodeCompletion.Text

def byteLength : List Char → Nat
  | [] => 0
  | c :: s => c.utf8Size + byteLength s

theorem byteLength_append (s t : List Char) : byteLength (s ++ t) = byteLength s + byteLength t := by
  induction s with
  | nil => simp [byteLength]
  | cons c s ih =>
    simp only [List.cons_append, byteLength, ih]
    omega

/-- Cuts a text at byte `n`. A character that reaches past `n` goes to the second part. -/
def splitAt : Nat → List Char → List Char × List Char
  | _, [] => ([], [])
  | n, c :: s =>
    if c.utf8Size ≤ n then
      let (a, b) := splitAt (n - c.utf8Size) s
      (c :: a, b)
    else ([], c :: s)

theorem splitAt_append (n : Nat) (s : List Char) : (splitAt n s).1 ++ (splitAt n s).2 = s := by
  induction s generalizing n with
  | nil => rfl
  | cons c s ih =>
    simp only [splitAt]
    split
    · simp [ih]
    · rfl

/-- The greatest boundary of the text that is at most `n`. -/
def floorBoundary (n : Nat) (s : List Char) : Nat :=
  byteLength (splitAt n s).1

theorem floorBoundary_le (n : Nat) (s : List Char) : floorBoundary n s ≤ n := by
  induction s generalizing n with
  | nil => simp [floorBoundary, splitAt, byteLength]
  | cons c s ih =>
    have h := ih (n - c.utf8Size)
    simp only [floorBoundary, splitAt] at h ⊢
    split
    · simp only [byteLength]
      omega
    · simp [byteLength]

/-- Whether no character lies across byte `n`, and `n` is not behind the end. -/
def isBoundary (n : Nat) (s : List Char) : Bool :=
  floorBoundary n s == n

/-- The text from byte `start` to byte `stop`; empty unless both are boundaries in order. -/
def slice (start stop : Nat) (s : List Char) : List Char :=
  if start ≤ stop && isBoundary start s && isBoundary stop s then
    (splitAt (stop - start) (splitAt start s).2).1
  else []

end CodeCompletion.Text
