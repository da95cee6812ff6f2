import CodeCompletion.Stage.Basic

namespace CodeCompletion.Stage

open StageRun

inductive CaseValue where
  | text (value : String)
  | enumMember (enumName member : String)
  deriving Repr, DecidableEq

def unquote (text : String) : String :=
  let cs := text.toList
  let quoted := "\"'`".toList.any fun q =>
    cs.head? == some q && cs.getLast? == some q
  if 2 ≤ cs.length && quoted then String.ofList cs.tail.dropLast else text

/-- The value of a test, by its type or else by its text. -/
def caseValue? (r : Request) (test : Nat) : Traced (Option CaseValue) := do
  match ← r.typeOfNode test with
  | some (.stringLiteral value) => return some (.text value)
  | some (.enumMember enumName member) => return some (.enumMember enumName member)
  | _ =>
    if r.tree.isKind .stringLiteral test then
      return some (.text (unquote (r.tree.text test r.document.text)))
    else return none

/-- Whether all members of a type are literals, `null` and `undefined` apart. -/
def isLiteralDomain (t : Ty) : Bool :=
  t.members.any (·.isLiteral) && t.members.all fun m => m.isLiteral || m.isNullish

def standsFor (e : Entry) : CaseValue → Bool
  | .text value => e.kind == .string && unquote e.insertion == value
  | .enumMember enumName member =>
    (e.kind == .enumMember && e.insertion == member) ||
      e.insertion == enumName ++ "." ++ member

/-- The values that clauses of a block other than the given one test. -/
def coveredValues (r : Request) (block clause : Nat) : Traced (List CaseValue) := do
  let others := (r.tree.children block).filter fun c => c != clause && r.tree.isKind .caseClause c
  let values ← Traced.each (caseValue? r) (others.filterMap r.tree.firstChild?)
  return values.filterMap id

/-- The case block of a clause and the expression it is about. -/
def caseParts (tree : SyntaxTree) (clause : Nat) : Except StageError (Nat × Nat) :=
  match (tree.parent? clause).filter (tree.isKind .caseBlock) with
  | none => .error (.unexpectedTree "case clause outside a case block")
  | some block =>
    match ((tree.parent? block).filter (tree.isKind .switchStatement)).bind tree.firstChild? with
    | none => .error (.unexpectedTree "case block without a switch discriminant")
    | some discriminant => .ok (block, discriminant)

def excludeCovered : StageRun := fun r entries =>
  match r.enclosing? .caseClause with
  | none => skip
  | some clause =>
    let inTest := (r.tree.firstChild? clause).all fun test =>
      (r.tree.span? test).any (·.touches r.position)
    if !inTest then skip
    else match caseParts r.tree clause with
      | .error e => pure (.error e)
      | .ok (block, discriminant) => do
        match ← r.typeOfNode discriminant with
        | none => skip
        | some t =>
          if !isLiteralDomain t then skip
          else do
            let covered ← coveredValues r block clause
            if covered.isEmpty then skip
            else retain (fun e => pure (!covered.any (standsFor e))) entries

end CodeCompletion.Stage
