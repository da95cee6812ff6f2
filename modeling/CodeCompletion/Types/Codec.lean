import CodeCompletion.Json.Decode
import CodeCompletion.Types.Ty

namespace CodeCompletion

def Primitive.table : List (String × Primitive) :=
  [("Any", .any), ("Unknown", .unknown), ("Never", .never), ("Void", .void),
   ("Undefined", .undefined), ("Null", .null), ("String", .string), ("Number", .number),
   ("Boolean", .bool), ("BigInt", .bigInt)]

def Primitive.key : Primitive → String
  | .any => "Any"
  | .unknown => "Unknown"
  | .never => "Never"
  | .void => "Void"
  | .undefined => "Undefined"
  | .null => "Null"
  | .string => "String"
  | .number => "Number"
  | .bool => "Boolean"
  | .bigInt => "BigInt"

theorem Primitive.lookup_table (p : Primitive) : Primitive.table.lookup p.key = some p := by
  cases p <;> rfl

def Literal.toJson : Literal → Json
  | .string value => .obj [("StringLiteral", .str value)]
  | .number value => .obj [("NumberLiteral", .str value)]
  | .bool value => .obj [("BooleanLiteral", .bool value)]
  | .enumMember enumName member =>
    .obj [("EnumMember", .obj [("enum_name", .str enumName), ("member", .str member)])]

namespace Ty

/-! ### Writing -/

mutual

def toJson : Ty → Json
  | .primitive p => .str p.key
  | .literal l => l.toJson
  | .array e => .obj [("Array", toJson e)]
  | .promise t => .obj [("Promise", toJson t)]
  | .object ⟨name, props, calls, constructs⟩ =>
    .obj [("Object", .obj [
      ("call_signatures", .arr (signaturesToJson calls)),
      ("construct_signatures", .arr (signaturesToJson constructs)),
      ("name", Json.ofOption .str name),
      ("properties", .arr (propertiesToJson props))])]
  | .union ms => .obj [("Union", .arr (allToJson ms))]
  | .named name => .obj [("Named", .str name)]

def allToJson : List Ty → List Json
  | [] => []
  | t :: ts => toJson t :: allToJson ts

def propertiesToJson : List (PropertyOf Ty) → List Json
  | [] => []
  | ⟨name, ty, optional, symbol⟩ :: ps =>
    .obj [("name", .str name), ("optional", .bool optional),
      ("symbol", Json.ofOption .nat symbol), ("ty", toJson ty)] :: propertiesToJson ps

def signaturesToJson : List (SignatureOf Ty) → List Json
  | [] => []
  | ⟨params, ret⟩ :: ss =>
    .obj [("params", .arr (paramsToJson params)), ("ret", toJson ret)] :: signaturesToJson ss

def paramsToJson : List (ParamOf Ty) → List Json
  | [] => []
  | ⟨name, ty, optional, rest⟩ :: ps =>
    .obj [("name", .str name), ("optional", .bool optional), ("rest", .bool rest),
      ("ty", toJson ty)] :: paramsToJson ps

end

/-! ### Reading

The readers of nested parts go through the fields of an object one by one and pick up those
they know. -/

/-- The fields found so far of an object type. -/
structure ObjectParts where
  name : Option (Option String) := none
  properties : Option (List Property) := none
  callSignatures : Option (List Signature) := none
  constructSignatures : Option (List Signature) := none

structure MemberParts where
  name : Option String := none
  ty : Option Ty := none
  optional : Option Bool := none
  symbol : Option (Option Nat) := none
  rest : Option Bool := none

structure SignatureParts where
  params : Option (List Param) := none
  ret : Option Ty := none

/-- All parts of an object type but its name have to be there. -/
def ObjectParts.close (p : ObjectParts) : Option ObjectTy := do
  return ⟨p.name.getD none, ← p.properties, ← p.callSignatures, ← p.constructSignatures⟩

def MemberParts.closeProperty (p : MemberParts) : Option Property := do
  return ⟨← p.name, ← p.ty, ← p.optional, p.symbol.getD none⟩

def MemberParts.closeParam (p : MemberParts) : Option Param := do
  return ⟨← p.name, ← p.ty, ← p.optional, ← p.rest⟩

def SignatureParts.close (p : SignatureParts) : Option Signature := do
  return ⟨← p.params, ← p.ret⟩

def decodeEnumMember : Decoder Literal
  | .obj fields => do
    let enumName ← Decode.string (← fields.lookup "enum_name")
    let member ← Decode.string (← fields.lookup "member")
    return .enumMember enumName member
  | _ => none

mutual

def decode : Json → Option Ty
  | .str s => (Primitive.table.lookup s).map .primitive
  | .obj [(key, value)] =>
    match key, value with
    | "StringLiteral", .str s => some (.literal (.string s))
    | "NumberLiteral", .str s => some (.literal (.number s))
    | "BooleanLiteral", .bool b => some (.literal (.bool b))
    | "EnumMember", v => (decodeEnumMember v).map .literal
    | "Array", v => (decode v).map .array
    | "Promise", v => (decode v).map .promise
    | "Object", v => (decodeObject v).map .object
    | "Union", .arr items => (decodeAll items).map .union
    | "Named", .str s => some (.named s)
    | k, .null => (Primitive.table.lookup k).map .primitive
    | _, _ => none
  | _ => none

def decodeAll : List Json → Option (List Ty)
  | [] => some []
  | j :: js => do return (← decode j) :: (← decodeAll js)

def decodeObject : Json → Option ObjectTy
  | .obj fields => (objectParts fields).bind (·.close)
  | .arr [name, .arr props, .arr calls, .arr constructs] => do
    return ⟨← Decode.nullable Decode.string name, ← decodeProperties props,
      ← decodeSignatures calls, ← decodeSignatures constructs⟩
  | _ => none

def objectParts : List (String × Json) → Option ObjectParts
  | [] => some {}
  | (key, value) :: fields =>
    match key, value with
    | "name", v => do
      return { ← objectParts fields with name := some (← Decode.nullable Decode.string v) }
    | "properties", .arr items => do
      return { ← objectParts fields with properties := some (← decodeProperties items) }
    | "call_signatures", .arr items => do
      return { ← objectParts fields with callSignatures := some (← decodeSignatures items) }
    | "construct_signatures", .arr items => do
      return { ← objectParts fields with constructSignatures := some (← decodeSignatures items) }
    | "properties", _ | "call_signatures", _ | "construct_signatures", _ => none
    | _, _ => objectParts fields

def decodeProperties : List Json → Option (List Property)
  | [] => some []
  | j :: js => do return (← decodeProperty j) :: (← decodeProperties js)

def decodeProperty : Json → Option Property
  | .obj fields => (memberParts true fields).bind (·.closeProperty)
  | .arr [name, ty, optional, symbol] => do
    return ⟨← Decode.string name, ← decode ty, ← Decode.bool optional,
      ← Decode.nullable Decode.nat32 symbol⟩
  | _ => none

/-- Picks up the fields of a property or, without a symbol, of a parameter. -/
def memberParts (isProperty : Bool) : List (String × Json) → Option MemberParts
  | [] => some {}
  | (key, value) :: fields =>
    match key, isProperty with
    | "name", _ => do
      return { ← memberParts isProperty fields with name := some (← Decode.string value) }
    | "ty", _ => do
      return { ← memberParts isProperty fields with ty := some (← decode value) }
    | "optional", _ => do
      return { ← memberParts isProperty fields with optional := some (← Decode.bool value) }
    | "symbol", true => do
      let symbol ← Decode.nullable Decode.nat32 value
      return { ← memberParts isProperty fields with symbol := some symbol }
    | "rest", false => do
      return { ← memberParts isProperty fields with rest := some (← Decode.bool value) }
    | _, _ => memberParts isProperty fields

def decodeSignatures : List Json → Option (List Signature)
  | [] => some []
  | j :: js => do return (← decodeSignature j) :: (← decodeSignatures js)

def decodeSignature : Json → Option Signature
  | .obj fields => (signatureParts fields).bind (·.close)
  | .arr [.arr params, ret] => do return ⟨← decodeParams params, ← decode ret⟩
  | _ => none

def signatureParts : List (String × Json) → Option SignatureParts
  | [] => some {}
  | (key, value) :: fields =>
    match key, value with
    | "params", .arr items => do
      return { ← signatureParts fields with params := some (← decodeParams items) }
    | "params", _ => none
    | "ret", v => do
      return { ← signatureParts fields with ret := some (← decode v) }
    | _, _ => signatureParts fields

def decodeParams : List Json → Option (List Param)
  | [] => some []
  | j :: js => do return (← decodeParam j) :: (← decodeParams js)

def decodeParam : Json → Option Param
  | .obj fields => (memberParts false fields).bind (·.closeParam)
  | .arr [name, ty, optional, rest] => do
    return ⟨← Decode.string name, ← decode ty, ← Decode.bool optional, ← Decode.bool rest⟩
  | _ => none

end

end Ty

end CodeCompletion
