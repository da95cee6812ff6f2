/-!
# Regular expressions

The part of a library of regular expressions that patterns need: words, runs of any characters, and
the two ends of a text, one after the other. An expression is handed over as a source text, in which
the library has escaped the words; what it finds is stated on the expression itself. A small engine
that reads such sources and tries every way to find them shows that the statement can be met.
-/

namespace CodeCompletion

/-- A regular expression without choices and groups. -/
inductive Expression where
  | word (text : String)
  /-- Any run of characters, line ends included. -/
  | anything
  | textStart
  | textEnd
  | both (first second : Expression)

namespace Expression

def source (escape : String → String) : Expression → String
  | word text => escape text
  | anything => ".*"
  | textStart => "^"
  | textEnd => "$"
  | both first second => first.source escape ++ second.source escape

/-- What an expression finds in `front ++ found ++ back`, behind `front` and in front of `back`. -/
inductive Finds : Expression → (front found back : List Char) → Prop where
  | word (text : String) (front back : List Char) : Finds (word text) front text.toList back
  | anything (front found back : List Char) : Finds anything front found back
  | textStart (back : List Char) : Finds textStart [] [] back
  | textEnd (front : List Char) : Finds textEnd front [] []
  | both {a b : Expression} {front x y back : List Char} (hfirst : Finds a front x (y ++ back))
      (hsecond : Finds b (front ++ x) y back) : Finds (both a b) front (x ++ y) back

theorem finds_both_iff {a b : Expression} {front found back : List Char} :
    Finds (both a b) front found back ↔
      ∃ x y, found = x ++ y ∧ Finds a front x (y ++ back) ∧ Finds b (front ++ x) y back := by
  constructor
  · rintro (_ | _ | _ | _ | ⟨hfirst, hsecond⟩)
    exact ⟨_, _, rfl, hfirst, hsecond⟩
  · rintro ⟨x, y, rfl, hfirst, hsecond⟩
    exact .both hfirst hsecond

end Expression

structure RegexLibrary where
  Regex : Type
  /-- The source of an expression for a text taken literally. -/
  escape : String → String
  /-- Reads a source. The error is a message. -/
  compile : String → Except String Regex
  /-- Whether an expression is found anywhere in a text. -/
  isMatch : Regex → String → Bool
  /-- The sources that are not too large. -/
  WithinLimits : String → Prop

/-- What the library's manual says of the expressions above. With the flag `s`, a dot is any
character. -/
def RegexLibrary.Documented (lib : RegexLibrary) : Prop :=
  ∀ e : Expression, lib.WithinLimits ("(?s)" ++ e.source lib.escape) →
    ∃ regex, lib.compile ("(?s)" ++ e.source lib.escape) = .ok regex ∧
      ∀ text, lib.isMatch regex text = true ↔
        ∃ front found back, text.toList = front ++ found ++ back ∧ e.Finds front found back

/-! ### An engine that tries every way -/

namespace Backtracking

/-- The characters that have a meaning of their own in a source. -/
def metaCharacters : List Char :=
  ['\\', '.', '+', '*', '?', '(', ')', '|', '[', ']', '\x7b', '\x7d', '^', '$', '#', '&', '-', '~']

def escapeChar (c : Char) : List Char :=
  if c ∈ metaCharacters then ['\\', c] else [c]

inductive Piece where
  | char (c : Char)
  | anything
  | textStart
  | textEnd

/-- The steps that are written in a source, if it has no other constructs. -/
def read : List Char → Option (List Piece)
  | [] => some []
  | '\\' :: c :: s => if c ∈ metaCharacters then (read s).map (.char c :: ·) else none
  | '.' :: '*' :: s => (read s).map (.anything :: ·)
  | '^' :: s => (read s).map (.textStart :: ·)
  | '$' :: s => (read s).map (.textEnd :: ·)
  | c :: s => if c ∈ metaCharacters then none else (read s).map (.char c :: ·)

/-- Whether the steps can be taken one after the other, from behind `front` on. -/
def fits : List Piece → (front rest : List Char) → Bool
  | [], _, _ => true
  | .char c :: pieces, front, d :: rest => c == d && fits pieces (front ++ [d]) rest
  | .char _ :: _, _, [] => false
  | .anything :: pieces, front, rest =>
    (List.range (rest.length + 1)).any fun n => fits pieces (front ++ rest.take n) (rest.drop n)
  | .textStart :: pieces, front, rest => front.isEmpty && fits pieces front rest
  | .textEnd :: pieces, front, rest => rest.isEmpty && fits pieces front rest

def pieces : Expression → List Piece
  | .word text => text.toList.map .char
  | .anything => [.anything]
  | .textStart => [.textStart]
  | .textEnd => [.textEnd]
  | .both first second => pieces first ++ pieces second

def readFlagged : List Char → Option (List Piece)
  | '(' :: '?' :: 's' :: ')' :: s => read s
  | _ => none

def maxLength : Nat := 1000000

def compile (source : String) : Except String (List Piece) :=
  if source.length ≤ maxLength then
    match readFlagged source.toList with
    | some steps => .ok steps
    | none => .error "unsupported expression"
  else .error "expression too large"

/-- An expression is searched for from every place of the text. -/
def library : RegexLibrary where
  Regex := List Piece
  escape text := String.ofList (text.toList.flatMap escapeChar)
  compile := compile
  isMatch pieces text := fits (.anything :: pieces) [] text.toList
  WithinLimits source := source.length ≤ maxLength

theorem read_cons_of_plain {c : Char} (h : c ∉ metaCharacters) (s : List Char) :
    read (c :: s) = (read s).map (.char c :: ·) := by
  have hne {d : Char} (hd : d ∈ metaCharacters) : c ≠ d := fun hc => h (hc ▸ hd)
  rw [read]
  · exact if_neg h
  · exact fun _ _ hc => absurd hc (hne (by decide))
  · exact fun _ hc => absurd hc (hne (by decide))
  · exact hne (by decide)
  · exact hne (by decide)

theorem read_escapeChar_append (c : Char) (s : List Char) :
    read (escapeChar c ++ s) = (read s).map (.char c :: ·) := by
  unfold escapeChar
  split
  · rename_i hmeta
    exact if_pos hmeta
  · rename_i hplain
    exact read_cons_of_plain hplain s

theorem read_source_append (e : Expression) (s : List Char) :
    read ((e.source library.escape).toList ++ s) = (read s).map (pieces e ++ ·) := by
  induction e generalizing s with
  | word text =>
    show read ((String.ofList (text.toList.flatMap escapeChar)).toList ++ s) =
      (read s).map (text.toList.map Piece.char ++ ·)
    rw [String.toList_ofList]
    induction text.toList with
    | nil => simp
    | cons c cs ih =>
      rw [List.flatMap_cons, List.append_assoc, read_escapeChar_append, ih, Option.map_map]
      rfl
  | anything => rfl
  | textStart => rfl
  | textEnd => rfl
  | both first second hfirst hsecond =>
    rw [Expression.source, String.toList_append, List.append_assoc, hfirst, hsecond, Option.map_map]
    simp only [Function.comp_def, pieces, List.append_assoc]

theorem fits_anything_iff (ps : List Piece) (front rest : List Char) :
    fits (.anything :: ps) front rest = true ↔
      ∃ found back, rest = found ++ back ∧ fits ps (front ++ found) back = true := by
  rw [fits, List.any_eq_true]
  constructor
  · rintro ⟨n, -, hfits⟩
    exact ⟨_, _, (List.take_append_drop n rest).symm, hfits⟩
  · rintro ⟨found, back, rfl, hfits⟩
    refine ⟨found.length, List.mem_range.mpr ?_, ?_⟩
    · rw [List.length_append]
      omega
    · rwa [List.take_left, List.drop_left]

theorem fits_chars_iff (cs : List Char) (ps : List Piece) (front rest : List Char) :
    fits (cs.map .char ++ ps) front rest = true ↔
      ∃ back, rest = cs ++ back ∧ fits ps (front ++ cs) back = true := by
  induction cs generalizing front rest with
  | nil => simp
  | cons c cs ih =>
    cases rest with
    | nil => simp [fits]
    | cons d rest =>
      rw [List.map_cons, List.cons_append, fits, Bool.and_eq_true, beq_iff_eq, ih]
      constructor
      · rintro ⟨rfl, back, rfl, hfits⟩
        exact ⟨back, rfl, by rwa [List.append_assoc] at hfits⟩
      · rintro ⟨back, hrest, hfits⟩
        cases hrest
        exact ⟨rfl, back, rfl, by rwa [List.append_assoc]⟩

/-- The engine goes on behind anything that the expression finds. -/
theorem fits_pieces_append_iff (e : Expression) (ps : List Piece) (front rest : List Char) :
    fits (pieces e ++ ps) front rest = true ↔
      ∃ found back, rest = found ++ back ∧ e.Finds front found back ∧
        fits ps (front ++ found) back = true := by
  induction e generalizing ps front rest with
  | word text =>
    refine (fits_chars_iff text.toList ps front rest).trans ⟨?_, ?_⟩
    · rintro ⟨back, hrest, hfits⟩
      exact ⟨text.toList, back, hrest, .word .., hfits⟩
    · rintro ⟨_, back, hrest, ⟨⟩, hfits⟩
      exact ⟨back, hrest, hfits⟩
  | anything =>
    refine (fits_anything_iff ps front rest).trans ⟨?_, ?_⟩
    · rintro ⟨found, back, hrest, hfits⟩
      exact ⟨found, back, hrest, .anything .., hfits⟩
    · rintro ⟨found, back, hrest, -, hfits⟩
      exact ⟨found, back, hrest, hfits⟩
  | textStart =>
    show (front.isEmpty && fits ps front rest) = true ↔ _
    rw [Bool.and_eq_true, List.isEmpty_iff]
    constructor
    · rintro ⟨rfl, hfits⟩
      exact ⟨[], rest, rfl, .textStart rest, hfits⟩
    · rintro ⟨_, _, rfl, ⟨⟩, hfits⟩
      exact ⟨rfl, hfits⟩
  | textEnd =>
    show (rest.isEmpty && fits ps front rest) = true ↔ _
    rw [Bool.and_eq_true, List.isEmpty_iff]
    constructor
    · rintro ⟨rfl, hfits⟩
      exact ⟨[], [], rfl, .textEnd front, by rwa [List.append_nil]⟩
    · rintro ⟨_, _, rfl, ⟨⟩, hfits⟩
      exact ⟨rfl, by rwa [List.append_nil] at hfits⟩
  | both a b ha hb =>
    rw [pieces, List.append_assoc, ha]
    simp only [hb, Expression.finds_both_iff]
    constructor
    · rintro ⟨x, _, rfl, hx, y, back, rfl, hy, hfits⟩
      exact ⟨x ++ y, back, (List.append_assoc ..).symm, ⟨x, y, rfl, hx, hy⟩,
        by rwa [← List.append_assoc]⟩
    · rintro ⟨_, back, rfl, ⟨x, y, rfl, hx, hy⟩, hfits⟩
      exact ⟨x, y ++ back, List.append_assoc .., hx, y, back, rfl, hy, by rwa [List.append_assoc]⟩

theorem compile_eq_ok {source : String} {steps : List Piece}
    (hlength : ("(?s)" ++ source).length ≤ maxLength) (hread : read source.toList = some steps) :
    compile ("(?s)" ++ source) = .ok steps := by
  have hflagged : readFlagged ("(?s)" ++ source).toList = some steps := by
    rw [String.toList_append]
    exact hread
  rw [compile, if_pos hlength, hflagged]

theorem documented : library.Documented := by
  intro e hlimits
  have hread : read (e.source library.escape).toList = some (pieces e) := by
    have hwhole := read_source_append e []
    rwa [List.append_nil, read, Option.map_some, List.append_nil] at hwhole
  refine ⟨pieces e, compile_eq_ok hlimits hread, fun text => ?_⟩
  refine (fits_anything_iff (pieces e) [] text.toList).trans ?_
  constructor
  · rintro ⟨front, rest, htext, hfits⟩
    rw [← List.append_nil (pieces e), fits_pieces_append_iff] at hfits
    obtain ⟨found, back, rfl, hfinds, -⟩ := hfits
    exact ⟨front, found, back, by rw [htext, List.append_assoc], hfinds⟩
  · rintro ⟨front, found, back, htext, hfinds⟩
    refine ⟨front, found ++ back, by rw [htext, List.append_assoc], ?_⟩
    rw [← List.append_nil (pieces e), fits_pieces_append_iff]
    exact ⟨found, back, rfl, hfinds, rfl⟩

end Backtracking

end CodeCompletion
