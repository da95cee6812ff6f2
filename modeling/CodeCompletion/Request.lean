import CodeCompletion.Cursor
import CodeCompletion.Entry.Basic
import CodeCompletion.Settings.Basic
import CodeCompletion.Trace

namespace CodeCompletion

inductive QuoteStyle where
  | double | single
  deriving Repr, DecidableEq, Inhabited

def QuoteStyle.mark : QuoteStyle → String
  | .double => "\""
  | .single => "'"

structure Formatting where
  quotes : QuoteStyle := .double
  semicolons : Bool := true
  deriving Repr, DecidableEq, Inhabited

/-- One request as the stages see it. -/
structure Request where
  document : Document
  /-- The offset as it was given. -/
  position : Nat
  settings : Settings
  checker : Checker
  /-- What was remembered before the request. -/
  components : ComponentCache
  formatting : Formatting
  triggerCharacter : Option Char
  cursor : Cursor
  /-- Whether members of an expression are being completed. -/
  isMember : Bool

namespace Request

def tree (r : Request) : SyntaxTree := r.document.tree

def typed (r : Request) : String := String.ofList r.cursor.word.typed

/-! ### Questions to the checker -/

def typeOfNode (r : Request) (node : Nat) : Traced (Option Ty) :=
  ⟨r.checker.typeOfNode node, [.ask (.nodeType node)]⟩

def contextualType (r : Request) (node : Nat) : Traced (Option Ty) :=
  ⟨r.checker.contextualType node, [.ask (.contextualType node)]⟩

def symbol (r : Request) (id : Nat) : Traced (Option Symbol) :=
  ⟨r.checker.symbol id, [.ask (.symbol id)]⟩

def typeOfSymbol (r : Request) (id : Nat) : Traced (Option Ty) :=
  ⟨r.checker.typeOfSymbol id, [.ask (.symbolType id)]⟩

def entryType (r : Request) (e : Entry) : Traced (Option Ty) :=
  Traced.ofOption r.typeOfSymbol e.symbol

def entrySymbol (r : Request) (e : Entry) : Traced (Option Symbol) :=
  Traced.ofOption r.symbol e.symbol

def declarationFile (r : Request) (e : Entry) : Traced (Option String) := do
  return (← r.entrySymbol e).bind (·.declarationFile?)

/-! ### The place of the request -/

/-- ASCII characters that are neither letters nor digits, blanks or controls. -/
def isPunctuation (c : Char) : Bool :=
  0x21 ≤ c.toNat && c.toNat ≤ 0x7E && !c.isAlphanum

/-- The node that the stages start from. A request that punctuation has triggered is looked at
where the punctuation stands, to the left of the cursor. -/
def anchor (r : Request) : Option Nat :=
  if r.triggerCharacter.any isPunctuation then r.cursor.nodeLeft.or r.cursor.nodeAt
  else r.cursor.nodeAt

def ancestors (r : Request) : List Nat :=
  (r.anchor.map r.tree.ancestors).getD []

def enclosing? (r : Request) (kind : SyntaxKind) : Option Nat :=
  r.ancestors.find? (r.tree.isKind kind)

def enclosingAny? (r : Request) (kinds : List SyntaxKind) : Option Nat :=
  r.ancestors.find? fun id => (r.tree.kind? id).any (kinds.contains ·)

/-- The expression whose members are being completed: the first part of the innermost property
access of which it ends before the cursor. -/
def memberReceiver? (r : Request) : Option Nat :=
  (r.ancestors.filter (r.tree.isKind .propertyAccessExpression)).findSome? fun access => do
    let receiver ← r.tree.firstChild? access
    if (r.tree.span? receiver).any (·.stop < r.position) then some receiver else none

def atTagName (r : Request) : Bool :=
  match r.anchor with
  | none => false
  | some node =>
    match r.tree.parent? node with
    | none => false
    | some parent =>
      (r.tree.kind? parent).any (·.isTag) && r.tree.firstChild? parent == some node

def atPropertyName (r : Request) : Bool :=
  let tree := r.tree
  match r.anchor with
  | none => false
  | some node =>
    match tree.kind? node, tree.parent? node with
    | some .objectLiteralExpression, _ => true
    | some .identifier, some parent =>
      match tree.kind? parent with
      | some .objectLiteralExpression => true
      | some .shorthandPropertyAssignment | some .propertyAssignment =>
        tree.firstChild? parent == some node &&
          (tree.parent? parent).any (tree.isKind .objectLiteralExpression)
      | _ => false
    | _, _ => false

/-- Whether the cursor touches the callee of a `new` expression. -/
def afterNew (r : Request) : Bool :=
  ((r.enclosing? .newExpression).bind r.tree.firstChild?).any fun callee =>
    (r.tree.span? callee).any (·.touches r.position)

end Request

end CodeCompletion
