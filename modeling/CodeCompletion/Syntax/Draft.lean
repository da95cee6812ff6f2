import CodeCompletion.Syntax.Tree

/-!
# Building a syntax tree in document order

A tree is given as steps: a node is opened, its descendants follow, and it is closed; a leaf is
opened and closed at once. Each new node becomes the last child of the innermost open node. A
step is refused when a node leaves the span of its parent, starts before the end of its previous
sibling, or would be a second root.
-/

namespace CodeCompletion

inductive BuildStep where
  | enter (kind : SyntaxKind) (span : Span)
  | leaf (kind : SyntaxKind) (span : Span)
  | leave
  deriving Repr, DecidableEq

/-- Why a tree cannot be built, or a node cannot be looked at. -/
inductive TreeError where
  | nothingToClose
  | leftOpen (count : Nat)
  | escapesParent (kind : SyntaxKind) (span : Span) (parentKind : SyntaxKind) (parentSpan : Span)
  | overlapsSibling (kind : SyntaxKind) (span : Span) (sibling : Span)
  | secondRoot (kind : SyntaxKind)
  | noSuchNode (size : Nat) (id : Nat)
  deriving Repr, DecidableEq

namespace TreeError

def showSpan (s : Span) : String :=
  "Span \x7b start: " ++ toString s.start ++ ", end: " ++ toString s.stop ++ " \x7d"

def message : TreeError → String
  | .nothingToClose => "TreeBuilder: finish_node without open node"
  | .leftOpen n => "TreeBuilder: " ++ toString n ++ " node(s) left open"
  | .escapesParent kind span parentKind parentSpan =>
    "TreeBuilder invariant violated: " ++ kind.name ++ " " ++ showSpan span ++
      " escapes parent " ++ parentKind.name ++ " " ++ showSpan parentSpan
  | .overlapsSibling kind span sibling =>
    "TreeBuilder invariant violated: " ++ kind.name ++ " " ++ showSpan span ++
      " overlaps previous sibling " ++ showSpan sibling
  | .secondRoot kind => "TreeBuilder invariant violated: second root " ++ kind.name
  | .noSuchNode size id =>
    "index out of bounds: the len is " ++ toString size ++ " but the index is " ++ toString id

end TreeError

/-- The nodes made so far and the open ones, innermost first. -/
structure TreeDraft where
  nodes : Array SyntaxNode
  opened : List Nat
  deriving Repr, DecidableEq

namespace TreeDraft

def start : TreeDraft := ⟨#[], []⟩

def addChild (child : Nat) (node : SyntaxNode) : SyntaxNode :=
  { node with children := node.children ++ [child] }

/-- Checks a node against its parent and the parent's last child. -/
def checkChild (nodes : Array SyntaxNode) (kind : SyntaxKind) (span : Span) (parent : SyntaxNode) :
    Except TreeError Unit :=
  if parent.span.encloses span then
    match parent.children.getLast?.bind (nodes[·]?) with
    | some last =>
      if last.span.stop ≤ span.start then .ok () else .error (.overlapsSibling kind span last.span)
    | none => .ok ()
  else .error (.escapesParent kind span parent.kind parent.span)

/-- Appends a node as the last child of the innermost open node, or as the root. -/
def append (b : TreeDraft) (kind : SyntaxKind) (span : Span) : Except TreeError TreeDraft :=
  match b.opened.head? with
  | none =>
    if b.nodes.isEmpty then .ok { b with nodes := b.nodes.push ⟨kind, span, none, []⟩ }
    else .error (.secondRoot kind)
  | some p =>
    match b.nodes[p]? with
    | none => .error (.noSuchNode b.nodes.size p)
    | some parent => do
      checkChild b.nodes kind span parent
      let linked := b.nodes.setIfInBounds p (addChild b.nodes.size parent)
      .ok { b with nodes := linked.push ⟨kind, span, some p, []⟩ }

def step (b : TreeDraft) : BuildStep → Except TreeError TreeDraft
  | .enter kind span => do
    let next ← b.append kind span
    .ok { next with opened := b.nodes.size :: b.opened }
  | .leaf kind span => b.append kind span
  | .leave =>
    match b.opened with
    | [] => .error .nothingToClose
    | _ :: rest => .ok { b with opened := rest }

def finish (b : TreeDraft) : Except TreeError SyntaxTree :=
  if b.opened.isEmpty then .ok ⟨b.nodes⟩ else .error (.leftOpen b.opened.length)

end TreeDraft

namespace SyntaxTree

def build (steps : List BuildStep) : Except TreeError SyntaxTree := do
  let b ← steps.foldlM TreeDraft.step TreeDraft.start
  b.finish

/-- The node with a given number, or an error for a number outside the tree. -/
def get (t : SyntaxTree) (id : Nat) : Except TreeError SyntaxNode :=
  match t.node? id with
  | some node => .ok node
  | none => .error (.noSuchNode t.size id)

end SyntaxTree

end CodeCompletion
