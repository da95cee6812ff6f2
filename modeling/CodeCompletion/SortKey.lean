/-!
# Sort keys

Editors order entries by comparing their sort keys as texts. A key is only ever derived from an
older one, so that the coarse groups of the engine stay together:

* `boost` moves a key in front of all keys that start with no `!`;
* `refine` orders keys with the same base by a rank, behind U+0001, which is less than every
  printable character, so that a refined key stays next to its base;
* `unique` appends its position to each key of a sorted list, behind U+0000.
-/

namespace CodeCompletion.SortKey

/-- A number in decimal digits, with zeros in front up to a width. -/
def decimal (width n : Nat) : String :=
  String.ofList (List.leftpad width '0' (Nat.toDigits 10 n))

def boost (base : String) : String := "!" ++ base

def isBoosted (key : String) : Bool := key.toList.head? == some '!'

/-- Orders keys with the same base by rank. Earlier refinements count more than later ones. -/
def refine (base : String) (rank : UInt16) : String :=
  base ++ "\x01" ++ decimal 4 rank.toNat

/-- The number of digits that every position in a list of the given length fits in. -/
def indexWidth (length : Nat) : Nat :=
  max 4 (Nat.toDigits 10 (max (length - 1) 1)).length

def unique (width index : Nat) (key : String) : String :=
  key ++ "\x00" ++ decimal width index

end CodeCompletion.SortKey
