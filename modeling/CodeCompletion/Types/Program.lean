import CodeCompletion.Types.Symbol
import CodeCompletion.Types.Ty

namespace CodeCompletion

/-- Symbols, their types and the types of syntax nodes. Of two types given to one node the
later one counts. -/
structure Program where
  symbols : Array Symbol := #[]
  symbolTypes : List (Nat × Ty) := []
  nodeTypes : List (Nat × Ty) := []
  contextualTypes : List (Nat × Ty) := []
  deriving Repr, Inhabited

namespace Program

/-- Adds a symbol and, where it is known, its type. Symbols are numbered from zero. -/
def addSymbol (p : Program) (symbol : Symbol) (ty : Option Ty) : Program :=
  { p with
    symbols := p.symbols.push symbol
    symbolTypes := (ty.map fun t => (p.symbols.size, t)).toList ++ p.symbolTypes }

def setNodeType (p : Program) (node : Nat) (ty : Ty) : Program :=
  { p with nodeTypes := (node, ty) :: p.nodeTypes }

def setContextualType (p : Program) (node : Nat) (ty : Ty) : Program :=
  { p with contextualTypes := (node, ty) :: p.contextualTypes }

def symbol? (p : Program) (id : Nat) : Option Symbol := p.symbols[id]?

def typeOfSymbol? (p : Program) (id : Nat) : Option Ty := p.symbolTypes.lookup id

def typeOfNode? (p : Program) (node : Nat) : Option Ty := p.nodeTypes.lookup node

def contextualType? (p : Program) (node : Nat) : Option Ty := p.contextualTypes.lookup node

end Program

inductive Query where
  | nodeType (node : Nat)
  | contextualType (node : Nat)
  | symbol (id : Nat)
  | symbolType (id : Nat)
  deriving Repr, DecidableEq

/-- What a checker may do besides answering. -/
inductive Signal where
  /-- Asks for the running request to be cancelled. -/
  | cancel
  /-- Breaks down, perhaps with a message. -/
  | crash (message : Option String)
  deriving Repr, DecidableEq

/-- The answers of a type checker, and what it does while it finds them. -/
structure Checker where
  typeOfNode : Nat → Option Ty
  contextualType : Nat → Option Ty
  symbol : Nat → Option Symbol
  typeOfSymbol : Nat → Option Ty
  signals : Query → List Signal := fun _ => []

def Program.checker (p : Program) : Checker where
  typeOfNode := p.typeOfNode?
  contextualType := p.contextualType?
  symbol := p.symbol?
  typeOfSymbol := p.typeOfSymbol?

end CodeCompletion
