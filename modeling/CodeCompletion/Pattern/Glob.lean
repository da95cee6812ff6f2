import CodeCompletion.Text.Affix

/-!
# File globs

A glob describes file names byte by byte. `?` is any byte, `*` any run of bytes, slashes
included, `[...]` a class of bytes and `{a,b}` a choice; `**` as a whole path component stands
for any number of components. A backslash takes away the meaning of the next character.

This module holds the pieces of a glob and says which names they match.
-/

namespace CodeCompletion

/-- A class of bytes, given by ranges of characters. -/
structure ByteClass where
  negated : Bool
  ranges : List (Char × Char)
  deriving Repr, DecidableEq

inductive GlobToken where
  | literal (c : Char)
  | anyByte
  | anyRun
  /-- `**` at the start: nothing, or any components with the slash behind them. -/
  | leadingComponents
  /-- `**` at the end: a slash and whatever follows. -/
  | trailingComponents
  /-- `**` between slashes: one slash, or two with anything in between. -/
  | innerComponents
  | byteClass (cls : ByteClass)
  | choice (branches : List (List GlobToken))
  deriving Repr

inductive GlobError where
  | unclosedClass
  | reversedRange (low high : Char)
  | danglingEscape
  | unclosedChoice
  | unopenedChoice
  deriving Repr, DecidableEq

structure Glob where
  tokens : List GlobToken
  deriving Repr

/-! ### Byte classes -/

namespace ByteClass

/-- The byte ranges that a range of characters contributes: the bytes of both ends one by one,
with everything between the last byte of the lower and the first byte of the upper end. -/
def byteRanges (low high : Char) : List (UInt8 × UInt8) :=
  let lows := String.utf8EncodeChar low
  let highs := String.utf8EncodeChar high
  if low = high then lows.map fun b => (b, b)
  else
    lows.dropLast.map (fun b => (b, b)) ++
      [(lows.getLastD 0, highs.headD 0)] ++ highs.tail.map fun b => (b, b)

def has (cls : ByteClass) (b : UInt8) : Bool :=
  let listed := cls.ranges.any fun (low, high) =>
    (byteRanges low high).any fun (x, y) => x ≤ b && b ≤ y
  listed != cls.negated

end ByteClass

/-! ### Places

A match goes through the pieces of a glob one by one and keeps all places of the text that it
can have reached. There is a place before each byte and one behind the last; they are listed as
flags, so that each piece costs no more than one walk through the text. -/

/-- For each place of a text, whether a match can have reached it. -/
abbrev Places := List Bool

namespace Places

def start (text : List UInt8) : Places := true :: text.map fun _ => false

/-- The places one byte on, where that byte passes the test. -/
def step (test : UInt8 → Bool) (text : List UInt8) (places : Places) : Places :=
  false :: List.zipWith (fun b here => here && test b) text places

def slash (text : List UInt8) (places : Places) : Places := step (· == 0x2F) text places

/-- The places at or behind one that is reached, given whether one before them is. -/
def spread : Bool → Places → Places
  | _, [] => []
  | reached, here :: rest => (reached || here) :: spread (reached || here) rest

def union (a b : Places) : Places := List.zipWith (· || ·) a b

def atEnd (places : Places) : Bool := places.getLastD false

end Places

/-! ### Matching -/

namespace GlobToken

mutual

/-- Whether a piece is no more than choices without content. -/
def isVoid : GlobToken → Bool
  | .choice branches => areVoid branches
  | _ => false

def allVoid : List GlobToken → Bool
  | [] => true
  | t :: ts => isVoid t && allVoid ts

def areVoid : List (List GlobToken) → Bool
  | [] => true
  | b :: bs => allVoid b && areVoid bs

end

mutual

/-- The places that are reached once a piece has matched from one of the given ones. -/
def advance (text : List UInt8) : GlobToken → Places → Places
  | .literal c, places =>
    (String.utf8EncodeChar c).foldl (fun places b => places.step (· == b) text) places
  | .anyByte, places => places.step (fun _ => true) text
  | .anyRun, places => places.spread false
  | .leadingComponents, places => places.union ((places.spread false).slash text)
  | .trailingComponents, places => (places.slash text).spread false
  | .innerComponents, places =>
    let behind := places.slash text
    behind.union ((behind.spread false).slash text)
  | .byteClass cls, places => places.step cls.has text
  | .choice branches, places =>
    if areVoid branches then places else advanceAny text branches places

def advanceAll (text : List UInt8) : List GlobToken → Places → Places
  | [], places => places
  | t :: ts, places => advanceAll text ts (advance text t places)

/-- The same for the branches of a choice, of which void ones do not count. -/
def advanceAny (text : List UInt8) : List (List GlobToken) → Places → Places
  | [], places => places.map fun _ => false
  | b :: bs, places =>
    let rest := advanceAny text bs places
    if allVoid b then rest else (advanceAll text b places).union rest

end

end GlobToken

namespace Glob

def matchesAll (g : Glob) : Bool :=
  match g.tokens with
  | [.leadingComponents] => true
  | _ => false

def accepts (g : Glob) (file : String) : Bool :=
  let text := Text.utf8Bytes file.toList
  g.matchesAll || (GlobToken.advanceAll text g.tokens (Places.start text)).atEnd

end Glob

end CodeCompletion
