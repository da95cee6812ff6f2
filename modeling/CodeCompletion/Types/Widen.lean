import CodeCompletion.Types.Ty

namespace CodeCompletion

/-- The type that a single value belongs to. -/
def Literal.base : Literal → Ty
  | .string _ => .string
  | .number _ => .number
  | .bool _ => .bool
  | .enumMember enumName _ => .named enumName

namespace Ty

def addNew (ts : List Ty) (t : Ty) : List Ty :=
  if ts.contains t then ts else ts ++ [t]

def distinct (ts : List Ty) : List Ty :=
  ts.foldl addNew []

/-- A union of distinct members; of a single one, the member itself. -/
def unionOf (ts : List Ty) : Ty :=
  match distinct ts with
  | [t] => t
  | us => .union us

mutual

/-- Replaces literal types at the top and in unions by the types they belong to. -/
def widen : Ty → Ty
  | .literal l => l.base
  | .union ms => unionOf (widenAll ms)
  | t => t

def widenAll : List Ty → List Ty
  | [] => []
  | t :: ts => widen t :: widenAll ts

end

end Ty

end CodeCompletion
