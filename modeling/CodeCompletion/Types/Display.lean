import CodeCompletion.Types.Ty

/-!
# Types as text

The text of a type as a user reads it. An array of a union or of an object type puts it in
round brackets; an anonymous object type with one call signature and no properties is shown as
a function.
-/

namespace CodeCompletion

namespace Primitive

def name : Primitive → String
  | .any => "any"
  | .unknown => "unknown"
  | .never => "never"
  | .void => "void"
  | .undefined => "undefined"
  | .null => "null"
  | .string => "string"
  | .number => "number"
  | .bool => "boolean"
  | .bigInt => "bigint"

end Primitive

namespace Literal

def display : Literal → String
  | .string value => "\"" ++ value ++ "\""
  | .number value => value
  | .bool true => "true"
  | .bool false => "false"
  | .enumMember enumName member => enumName ++ "." ++ member

end Literal

namespace Ty

/-- What stands in front of a parameter's type. -/
def paramHead (name : String) (optional rest : Bool) : String :=
  (if rest then "..." else "") ++ name ++ (if optional then "?" else "") ++ ": "

def needsBrackets : Ty → Bool
  | .union _ | .object _ => true
  | _ => false

mutual

def display : Ty → String
  | .primitive p => p.name
  | .literal l => l.display
  | .array e => if e.needsBrackets then "(" ++ display e ++ ")[]" else display e ++ "[]"
  | .promise t => "Promise<" ++ display t ++ ">"
  | .object ⟨some name, _, _, _⟩ => name
  | .object ⟨none, [], [⟨params, ret⟩], _⟩ =>
    "(" ++ ", ".intercalate (displayParams params) ++ ") => " ++ display ret
  | .object ⟨none, props, _, _⟩ => "\x7b " ++ displayProperties props ++ "\x7d"
  | .union ms => " | ".intercalate (displayMembers ms)
  | .named name => name

def displayMembers : List Ty → List String
  | [] => []
  | t :: ts => display t :: displayMembers ts

def displayParams : List (ParamOf Ty) → List String
  | [] => []
  | ⟨name, ty, optional, rest⟩ :: ps =>
    (paramHead name optional rest ++ display ty) :: displayParams ps

def displayProperties : List (PropertyOf Ty) → String
  | [] => ""
  | ⟨name, ty, optional, _⟩ :: ps =>
    name ++ (if optional then "?" else "") ++ ": " ++ display ty ++ "; " ++ displayProperties ps

end

end Ty

def ParamOf.display (p : Param) : String :=
  Ty.paramHead p.name p.optional p.rest ++ p.ty.display

def SignatureOf.display (s : Signature) : String :=
  "(" ++ ", ".intercalate (s.params.map ParamOf.display) ++ "): " ++ s.ret.display

end CodeCompletion
