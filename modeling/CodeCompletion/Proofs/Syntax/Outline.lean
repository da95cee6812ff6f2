import CodeCompletion.Syntax.Draft

namespace CodeCompletion

/-- An ordered tree of kinds and spans. -/
inductive Outline where
  | node (kind : SyntaxKind) (span : Span) (children : List Outline)

namespace Outline

def span : Outline → Span
  | .node _ span _ => span

/-! ### Nesting -/

mutual

/-- Every child lies inside its parent and starts at or after the end of its previous sibling. -/
def Nested : Outline → Prop
  | .node _ span children => Fits span none children

/-- The trees lie inside `outer`, each at or after the end of the one before it; the first of them
comes after `previous`. -/
def Fits (outer : Span) (previous : Option Span) : List Outline → Prop
  | [] => True
  | o :: os =>
    outer.encloses o.span = true ∧ (∀ s ∈ previous, s.stop ≤ o.span.start) ∧ o.Nested ∧
      Fits outer (some o.span) os

end

/-! ### Traversals -/

mutual

/-- The steps visit the nodes of a tree in pre-order. A node without children may be written as a
leaf. -/
inductive Traverses : Outline → List BuildStep → Prop where
  | leaf (kind : SyntaxKind) (span : Span) : Traverses (.node kind span []) [.leaf kind span]
  | node (kind : SyntaxKind) (span : Span) {children : List Outline} {steps : List BuildStep}
    (h : TraversesAll children steps) :
    Traverses (.node kind span children) (.enter kind span :: (steps ++ [.leave]))

inductive TraversesAll : List Outline → List BuildStep → Prop where
  | nil : TraversesAll [] []
  | cons {o : Outline} {os : List Outline} {steps rest : List BuildStep}
    (h : Traverses o steps) (hs : TraversesAll os rest) : TraversesAll (o :: os) (steps ++ rest)

end

theorem TraversesAll.append {os os' : List Outline} {steps steps' : List BuildStep}
    (h : TraversesAll os steps) (h' : TraversesAll os' steps') :
    TraversesAll (os ++ os') (steps ++ steps') := by
  induction os generalizing steps with
  | nil =>
    cases h
    exact h'
  | cons o os ih =>
    cases h with
    | cons ho hos =>
      rw [List.append_assoc]
      exact .cons ho (ih hos)

theorem TraversesAll.concat {os : List Outline} {o : Outline} {steps steps' : List BuildStep}
    (h : TraversesAll os steps) (h' : Traverses o steps') :
    TraversesAll (os ++ [o]) (steps ++ steps') := by
  refine h.append ?_
  rw [← List.append_nil steps']
  exact .cons h' .nil

/-! ### Numbering -/

mutual

def size : Outline → Nat
  | .node _ _ children => sizeAll children + 1

def sizeAll : List Outline → Nat
  | [] => 0
  | o :: os => o.size + sizeAll os

end

/-- The numbers of the roots when the nodes of all trees are numbered from `first` on. -/
def roots (first : Nat) : List Outline → List Nat
  | [] => []
  | o :: os => first :: roots (first + o.size) os

mutual

/-- The nodes in pre-order, numbered from `first` on. -/
def layout (parent : Option Nat) (first : Nat) : Outline → List SyntaxNode
  | .node kind span children =>
    ⟨kind, span, parent, roots (first + 1) children⟩ :: layoutAll first (first + 1) children

def layoutAll (parent first : Nat) : List Outline → List SyntaxNode
  | [] => []
  | o :: os => o.layout (some parent) first ++ layoutAll parent (first + o.size) os

end

def toTree (o : Outline) : SyntaxTree := ⟨(o.layout none 0).toArray⟩

mutual

theorem length_layout (parent : Option Nat) (first : Nat) :
    ∀ o : Outline, (o.layout parent first).length = o.size
  | .node kind span children => by
    rw [layout, size, List.length_cons, length_layoutAll]

theorem length_layoutAll (parent first : Nat) :
    ∀ os : List Outline, (layoutAll parent first os).length = sizeAll os
  | [] => rfl
  | o :: os => by
    rw [layoutAll, sizeAll, List.length_append, length_layout, length_layoutAll]

end

end Outline

end CodeCompletion
