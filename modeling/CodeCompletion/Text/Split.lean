namespace CodeCompletion.Text

def cutFirst? (isSep : Char → Bool) : List Char → Option (List Char × List Char)
  | [] => none
  | c :: s => if isSep c then some ([], s) else (cutFirst? isSep s).map fun p => (c :: p.1, p.2)

def afterLast? (isSep : Char → Bool) : List Char → Option (List Char)
  | [] => none
  | c :: s => (afterLast? isSep s).orElse fun _ => if isSep c then some s else none

/-- The pieces between separators; `n` separators give `n + 1` pieces. -/
def pieces (isSep : Char → Bool) : List Char → List (List Char)
  | [] => [[]]
  | c :: s =>
    if isSep c then [] :: pieces isSep s
    else match pieces isSep s with
      | [] => [[c]]
      | p :: ps => (c :: p) :: ps

theorem pieces_ne_nil (isSep : Char → Bool) (s : List Char) : pieces isSep s ≠ [] := by
  cases s with
  | nil => simp [pieces]
  | cons c s =>
    simp only [pieces]
    split
    · simp
    · split <;> simp

def isOneOf (cs : List Char) (c : Char) : Bool :=
  cs.contains c

def splitOn (isSep : Char → Bool) (s : String) : List String :=
  (pieces isSep s.toList).map String.ofList

end CodeCompletion.Text
