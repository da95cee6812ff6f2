import CodeCompletion.Document
import CodeCompletion.Text.Alphanumeric

namespace CodeCompletion

/-- The word around an offset, and the characters beside it. -/
structure Word where
  /-- The part of the word before the offset. -/
  typed : List Char
  /-- The bytes of the whole word. -/
  span : Span
  /-- The character in front of the word. -/
  before : Option Char
  /-- The character behind the word. -/
  after : Option Char
  deriving Repr, DecidableEq

/-- The longest run of identifier characters around the greatest boundary up to an offset. -/
def Word.around (text : List Char) (offset : Nat) : Word :=
  let (left, right) := Text.splitAt offset text
  let typed := (left.reverse.takeWhile Text.isIdentifierChar).reverse
  let start := Text.byteLength left - Text.byteLength typed
  let stop := Text.byteLength left + Text.byteLength (right.takeWhile Text.isIdentifierChar)
  { typed
    span := ⟨start, stop⟩
    before := (left.reverse.dropWhile Text.isIdentifierChar).head?
    after := (right.dropWhile Text.isIdentifierChar).head? }

structure Cursor where
  /-- The smallest node that touches the cursor. -/
  nodeAt : Option Nat
  /-- The smallest node that contains the byte before the cursor. -/
  nodeLeft : Option Nat
  word : Word
  /-- Whether a snippet may be inserted here. -/
  snippetPosition : Bool
  deriving Repr, DecidableEq

namespace Cursor

/-- Walks from a node up: some surroundings welcome snippets, others take only a bare name, and
the name of a tag is such a place too. `child` is the node the walk comes from. -/
def allowsSnippet (tree : SyntaxTree) : Option Nat → List Nat → Bool
  | _, [] => true
  | child, id :: rest =>
    match tree.kind? id with
    | some .jsxExpression | some .block | some .arrowFunction | some .classBody => true
    | some .typeReference | some .jsxAttributes | some .jsxClosingElement => false
    | some kind =>
      if kind.isImportOrExport then false
      else if kind.isTag && child.isSome && tree.firstChild? id == child then false
      else allowsSnippet tree (some id) rest
    | none => allowsSnippet tree (some id) rest

/-- Whether a snippet may be put at a node in front of a character: not where a call or a type
argument list follows already. -/
def isSnippetPosition (tree : SyntaxTree) (node : Option Nat) (after : Option Char) : Bool :=
  if after == some '(' || after == some '<' then false
  else match node with
    | none => true
    | some id => allowsSnippet tree none (tree.ancestors id)

/-- Looks around an offset; one off the text or inside a character counts as the greatest
boundary below it. -/
def detect (document : Document) (offset : Nat) : Cursor :=
  let text := document.text.toList
  let offset := Text.floorBoundary offset text
  let word := Word.around text offset
  let nodeAt := document.tree.nodeTouching? offset
  { nodeAt
    nodeLeft := if offset = 0 then none else document.tree.nodeContaining? (offset - 1)
    word
    snippetPosition := isSnippetPosition document.tree nodeAt word.after }

end Cursor

end CodeCompletion
