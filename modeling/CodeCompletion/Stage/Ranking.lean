import CodeCompletion.SortKey
import CodeCompletion.Stage.Basic
import CodeCompletion.Types.Accepts

namespace CodeCompletion

def Entry.mapKey (f : String → String) (e : Entry) : Entry := { e with sortText := f e.sortText }

def Entry.keyLe (a b : Entry) : Bool := decide (a.sortText ≤ b.sortText)

/-- Sorts entries by their keys; entries with equal keys keep their order. -/
def Entry.sortByKey (entries : List Entry) : List Entry := entries.mergeSort Entry.keyLe

def Entry.isSortedByKey : List Entry → Bool
  | a :: b :: rest => a.keyLe b && isSortedByKey (b :: rest)
  | _ => true

namespace Stage

open StageRun

/-! ### Expected keywords -/

/-- The statement in front of the word, in the innermost list of statements. -/
def previousStatement? (r : Request) : Option Nat := do
  let container ← r.enclosingAny? [.block, .sourceFile]
  r.tree.childBefore? container r.cursor.word.span.start

/-- Whether the cursor stands between the name and the body of a class. -/
def inClassHeader (r : Request) : Bool :=
  match r.enclosing? .classDeclaration with
  | none => false
  | some cls =>
    let afterName := (r.tree.childOfKind? cls .identifier).all fun name =>
      (r.tree.span? name).any (·.stop < r.cursor.word.span.start)
    let beforeBody := (r.tree.childOfKind? cls .classBody).all fun body =>
      (r.tree.span? body).any (r.position ≤ ·.start)
    afterName && beforeBody

/-- Keywords that go on with a statement of which all of the optional parts may be missing. -/
def continuations (tree : SyntaxTree) (statement : Nat) : List String :=
  let parts := (tree.children statement).length
  match tree.kind? statement with
  | some .tryStatement =>
    let hasCatch := (tree.childOfKind? statement .catchClause).isSome
    if (if hasCatch then 2 else 1) < parts then []
    else if hasCatch then ["finally"] else ["catch", "finally"]
  | some .ifStatement => if parts < 3 then ["else"] else []
  | _ => []

def expectedKeywords (r : Request) : List String :=
  if inClassHeader r then ["extends", "implements"]
  else ((previousStatement? r).map (continuations r.tree)).getD []

def boostKeywords : StageRun := fun r entries =>
  let expected := expectedKeywords r
  if r.isMember || expected.isEmpty then skip
  else update (fun e => pure (
    if e.kind == .keyword && expected.contains e.name && !SortKey.isBoosted e.sortText
    then some (e.mapKey SortKey.boost) else none)) entries

/-! ### Fit with the expected type -/

/-- Nodes beyond which no type is expected. -/
def contextBoundaries : List SyntaxKind := [.block, .classBody, .sourceFile, .caseClause]

def expectedType (r : Request) : Traced (Option Ty) :=
  Traced.firstSome r.contextualType
    (r.ancestors.takeWhile fun id => !(r.tree.kind? id).any (contextBoundaries.contains ·))

/-- Whether an entry has a type that the expected one accepts. -/
def fits (r : Request) (expected : Ty) (e : Entry) : Traced Bool := do
  if e.kind == .keyword then return false
  else return (← r.entryType e).any expected.accepts

def boostByType : StageRun := fun r entries => do
  match ← expectedType r with
  | none | some .any | some .unknown => skip
  | some expected =>
    let judged ← Traced.each (fun e => do return (e, ← fits r expected e)) entries
    let ranked := judged.map fun (e, fit) => e.mapKey (SortKey.refine · (if fit then 0 else 1))
    return .ok (.entriesIf (judged.any (·.2)) ranked)

/-! ### Distance -/

inductive Locality where
  | currentFile | project | dependency
  deriving Repr, DecidableEq

def Locality.rank : Locality → UInt16
  | .currentFile => 0
  | .project => 1
  | .dependency => 2

def isDependencyFile (path : String) : Bool :=
  (Text.splitOn (Text.isOneOf ['/', '\\']) path).contains "node_modules"

/-- How far away an entry is declared; the project when that is not known. -/
def locality (r : Request) (e : Entry) : Traced Locality := do
  match ← r.declarationFile e with
  | none => return .project
  | some file =>
    return if file = r.document.fileName then .currentFile
      else if isDependencyFile file then .dependency else .project

def boostByLocality : StageRun := fun r entries => do
  let placed ← Traced.each (fun e => do return (e, ← locality r e)) entries
  if placed.all (·.2 == .project) then skip
  else return .ok (.entries (placed.map fun (e, l) => e.mapKey (SortKey.refine · l.rank)))

/-! ### Order of properties -/

def rank? (n : Nat) : Option UInt16 := if n < 65536 then some n.toUInt16 else none

/-- The place of a name among properties; unlisted ones come behind all others. -/
def propertyRank (properties : List Property) (name : String) : UInt16 :=
  let unlisted := (rank? properties.length).getD 65535
  ((properties.findIdx? (·.name == name)).bind rank?).getD unlisted

def sortProperties : StageRun := fun r entries =>
  if !r.isMember then skip
  else do
    match ← Traced.ofOption r.typeOfNode r.memberReceiver? with
    | none => skip
    | some t =>
      if t.properties.isEmpty then skip
      else return .ok (.entries (entries.map fun e =>
        e.mapKey (SortKey.refine · (propertyRank t.properties e.insertion))))

/-! ### Order of the list -/

/-- Brings the list into the order of the keys, which is the one the user will see. -/
def normalizeOrder : StageRun := fun _ entries =>
  pure (.ok (.entriesIf (!Entry.isSortedByKey entries) (Entry.sortByKey entries)))

end Stage

end CodeCompletion
