import CodeCompletion.Span
import CodeCompletion.Syntax.Kind

namespace CodeCompletion

structure SyntaxNode where
  kind : SyntaxKind
  span : Span
  parent : Option Nat
  children : List Nat
  deriving Repr, DecidableEq, Inhabited

/-- A syntax tree as a numbered list of nodes. -/
structure SyntaxTree where
  nodes : Array SyntaxNode
  deriving Repr, DecidableEq, Inhabited

namespace SyntaxTree

def empty : SyntaxTree := ⟨#[]⟩

def size (t : SyntaxTree) : Nat := t.nodes.size

def isEmpty (t : SyntaxTree) : Bool := t.nodes.isEmpty

def root? (t : SyntaxTree) : Option Nat :=
  if t.isEmpty then none else some 0

def node? (t : SyntaxTree) (id : Nat) : Option SyntaxNode := t.nodes[id]?

def kind? (t : SyntaxTree) (id : Nat) : Option SyntaxKind := (t.node? id).map (·.kind)

def isKind (t : SyntaxTree) (kind : SyntaxKind) (id : Nat) : Bool := t.kind? id == some kind

def span? (t : SyntaxTree) (id : Nat) : Option Span := (t.node? id).map (·.span)

def parent? (t : SyntaxTree) (id : Nat) : Option Nat := (t.node? id).bind (·.parent)

def children (t : SyntaxTree) (id : Nat) : List Nat := ((t.node? id).map (·.children)).getD []

def firstChild? (t : SyntaxTree) (id : Nat) : Option Nat := (t.children id).head?

def childOfKind? (t : SyntaxTree) (id : Nat) (kind : SyntaxKind) : Option Nat :=
  (t.children id).find? (t.isKind kind)

def previousSibling? (t : SyntaxTree) (id : Nat) : Option Nat := do
  let siblings := t.children (← t.parent? id)
  match (← siblings.idxOf? id) with
  | 0 => none
  | n + 1 => siblings[n]?

def text (t : SyntaxTree) (id : Nat) (source : String) : String :=
  ((t.span? id).map (·.slice source)).getD ""

/-- A node, its parent, the parent of that and so on up to the root. -/
def ancestors (t : SyntaxTree) (id : Nat) : List Nat :=
  match t.parent? id with
  | some p => if p < id then id :: ancestors t p else [id]
  | none => [id]
termination_by id

/-! ### Look-up by position -/

/-- Goes down from a node to the first child whose span is accepted, as long as there is one. -/
def descend (t : SyntaxTree) (accepts : Span → Bool) (id : Nat) : Nat :=
  match (t.children id).find? fun c => (t.span? c).any accepts with
  | some c => if id < c ∧ c < t.size then descend t accepts c else id
  | none => id
termination_by t.size - id

/-- The smallest node that touches the position. Where two siblings meet the left one is
taken, which is the one being typed; the root stands in when no child touches the position. -/
def nodeTouching? (t : SyntaxTree) (pos : Nat) : Option Nat :=
  t.root?.map (t.descend (·.touches pos))

/-- The smallest node that contains the byte at the position, or the root. -/
def nodeContaining? (t : SyntaxTree) (pos : Nat) : Option Nat :=
  t.root?.map (t.descend (·.contains pos))

def enclosingAny? (t : SyntaxTree) (id : Nat) (kinds : List SyntaxKind) : Option Nat :=
  (t.ancestors id).find? fun a => (t.kind? a).any (kinds.contains ·)

def enclosing? (t : SyntaxTree) (id : Nat) (kind : SyntaxKind) : Option Nat :=
  (t.ancestors id).find? (t.isKind kind)

/-- The last of the leading children of a node that end at or before the position. -/
def childBefore? (t : SyntaxTree) (id : Nat) (pos : Nat) : Option Nat :=
  ((t.children id).takeWhile fun c => (t.span? c).any (·.stop ≤ pos)).getLast?

end SyntaxTree

end CodeCompletion
