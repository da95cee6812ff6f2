/-!
# The type model

Types as far as completion looks at them: primitive and literal types, arrays, promises, object
types with properties and signatures, unions, and names that the model does not expand.

An object type, a signature and so on are first given for any notion `τ` of type, and then
closed by `Ty`.
-/

namespace CodeCompletion

structure ParamOf (τ : Type) where
  name : String
  ty : τ
  optional : Bool := false
  rest : Bool := false
  deriving Repr, DecidableEq

structure SignatureOf (τ : Type) where
  params : List (ParamOf τ)
  ret : τ
  deriving Repr, DecidableEq

structure PropertyOf (τ : Type) where
  name : String
  ty : τ
  optional : Bool := false
  symbol : Option Nat := none
  deriving Repr, DecidableEq

structure ObjectOf (τ : Type) where
  name : Option String := none
  properties : List (PropertyOf τ) := []
  callSignatures : List (SignatureOf τ) := []
  constructSignatures : List (SignatureOf τ) := []
  deriving Repr, DecidableEq

inductive Primitive where
  | any | unknown | never | void | undefined | null | string | number | bool | bigInt
  deriving Repr, DecidableEq, Inhabited

inductive Literal where
  | string (value : String)
  /-- A number, as it is written. -/
  | number (value : String)
  | bool (value : Bool)
  | enumMember (enumName member : String)
  deriving Repr, DecidableEq, Inhabited

inductive Ty where
  | primitive (p : Primitive)
  | literal (l : Literal)
  | array (element : Ty)
  | promise (inner : Ty)
  | object (o : ObjectOf Ty)
  | union (members : List Ty)
  /-- A name that the model does not expand. -/
  | named (name : String)
  deriving Repr, Inhabited

abbrev Param := ParamOf Ty
abbrev Signature := SignatureOf Ty
abbrev Property := PropertyOf Ty
abbrev ObjectTy := ObjectOf Ty

namespace Ty

/-! ### Equality -/

mutual

/-- Equality of types; members of a union count in their order. -/
def same : Ty → Ty → Bool
  | .primitive p, .primitive q => p == q
  | .literal l, .literal m => l == m
  | .array a, .array b => same a b
  | .promise a, .promise b => same a b
  | .object ⟨n, ps, cs, ks⟩, .object ⟨m, qs, ds, ls⟩ =>
    n == m && sameProperties ps qs && sameSignatures cs ds && sameSignatures ks ls
  | .union as, .union bs => sameMembers as bs
  | .named a, .named b => a == b
  | _, _ => false

def sameMembers : List Ty → List Ty → Bool
  | [], [] => true
  | a :: as, b :: bs => same a b && sameMembers as bs
  | _, _ => false

def sameProperties : List (PropertyOf Ty) → List (PropertyOf Ty) → Bool
  | [], [] => true
  | ⟨n, t, o, s⟩ :: ps, ⟨m, u, p, r⟩ :: qs =>
    n == m && same t u && o == p && s == r && sameProperties ps qs
  | _, _ => false

def sameSignatures : List (SignatureOf Ty) → List (SignatureOf Ty) → Bool
  | [], [] => true
  | ⟨ps, t⟩ :: ss, ⟨qs, u⟩ :: rs => sameParams ps qs && same t u && sameSignatures ss rs
  | _, _ => false

def sameParams : List (ParamOf Ty) → List (ParamOf Ty) → Bool
  | [], [] => true
  | ⟨n, t, o, r⟩ :: ps, ⟨m, u, p, s⟩ :: qs =>
    n == m && same t u && o == p && r == s && sameParams ps qs
  | _, _ => false

end

mutual

theorem same_iff : (a b : Ty) → (same a b = true ↔ a = b)
  | .primitive _, b => by cases b <;> simp [same]
  | .literal _, b => by cases b <;> simp [same]
  | .array a, b => by cases b <;> simp [same, same_iff a]
  | .promise a, b => by cases b <;> simp [same, same_iff a]
  | .object ⟨n, ps, cs, ks⟩, b => by
    cases b with
    | object o =>
      obtain ⟨m, qs, ds, ls⟩ := o
      simp [same, sameProperties_iff ps, sameSignatures_iff cs, sameSignatures_iff ks, and_assoc]
    | _ => simp [same]
  | .union as, b => by cases b <;> simp [same, sameMembers_iff as]
  | .named _, b => by cases b <;> simp [same]

theorem sameMembers_iff : (as bs : List Ty) → (sameMembers as bs = true ↔ as = bs)
  | [], bs => by cases bs <;> simp [sameMembers]
  | a :: as, bs => by cases bs <;> simp [sameMembers, same_iff a, sameMembers_iff as]

theorem sameProperties_iff :
    (ps qs : List (PropertyOf Ty)) → (sameProperties ps qs = true ↔ ps = qs)
  | [], qs => by cases qs <;> simp [sameProperties]
  | ⟨n, t, o, s⟩ :: ps, qs => by
    cases qs with
    | nil => simp [sameProperties]
    | cons q qs =>
      obtain ⟨m, u, p, r⟩ := q
      simp [sameProperties, same_iff t, sameProperties_iff ps, and_assoc]

theorem sameSignatures_iff :
    (ss rs : List (SignatureOf Ty)) → (sameSignatures ss rs = true ↔ ss = rs)
  | [], rs => by cases rs <;> simp [sameSignatures]
  | ⟨ps, t⟩ :: ss, rs => by
    cases rs with
    | nil => simp [sameSignatures]
    | cons r rs =>
      obtain ⟨qs, u⟩ := r
      simp [sameSignatures, sameParams_iff ps, same_iff t, sameSignatures_iff ss, and_assoc]

theorem sameParams_iff : (ps qs : List (ParamOf Ty)) → (sameParams ps qs = true ↔ ps = qs)
  | [], qs => by cases qs <;> simp [sameParams]
  | ⟨n, t, o, r⟩ :: ps, qs => by
    cases qs with
    | nil => simp [sameParams]
    | cons q qs =>
      obtain ⟨m, u, p, s⟩ := q
      simp [sameParams, same_iff t, sameParams_iff ps, and_assoc]

end

instance : DecidableEq Ty := fun a b => decidable_of_iff _ (same_iff a b)

/-! ### Common types -/

@[match_pattern] abbrev any : Ty := .primitive .any
@[match_pattern] abbrev unknown : Ty := .primitive .unknown
@[match_pattern] abbrev never : Ty := .primitive .never
@[match_pattern] abbrev void : Ty := .primitive .void
@[match_pattern] abbrev undefined : Ty := .primitive .undefined
@[match_pattern] abbrev null : Ty := .primitive .null
@[match_pattern] abbrev string : Ty := .primitive .string
@[match_pattern] abbrev number : Ty := .primitive .number
@[match_pattern] abbrev bool : Ty := .primitive .bool
@[match_pattern] abbrev stringLiteral (value : String) : Ty := .literal (.string value)
@[match_pattern] abbrev enumMember (enumName member : String) : Ty :=
  .literal (.enumMember enumName member)

/-- The anonymous object type with one call signature. -/
def function (params : List Param) (ret : Ty) : Ty :=
  .object { callSignatures := [⟨params, ret⟩] }

def record (properties : List Property) : Ty :=
  .object { properties }

/-! ### Parts of a type -/

def object? : Ty → Option ObjectTy
  | .object o => some o
  | _ => none

def callSignatures (t : Ty) : List Signature := (t.object?.map (·.callSignatures)).getD []

def constructSignatures (t : Ty) : List Signature :=
  (t.object?.map (·.constructSignatures)).getD []

def isCallable (t : Ty) : Bool := !t.callSignatures.isEmpty

def isUnion : Ty → Bool
  | .union _ => true
  | _ => false

def isLiteral : Ty → Bool
  | .literal _ => true
  | _ => false

def isVoid : Ty → Bool
  | .void => true
  | _ => false

def isPromiseOfVoid : Ty → Bool
  | .promise inner => inner.isVoid
  | _ => false

def isNullish : Ty → Bool
  | .null | .undefined => true
  | _ => false

/-- The members of a union; any other type is its only member. -/
def members : Ty → List Ty
  | .union ms => ms
  | t => [t]

/-- The properties of an object type. Of a union, those properties of its first object member
whose names all its other object members have too. -/
def properties : Ty → List Property
  | .object o => o.properties
  | .union ms =>
    match ms.filterMap object? with
    | [] => []
    | first :: rest =>
      first.properties.filter fun p =>
        rest.all fun other => other.properties.any fun q => q.name == p.name
  | _ => []

/-- A union without its `null` and `undefined` members; a single one left stands for itself. -/
def withoutNullish : Ty → Ty
  | .union ms =>
    match ms.filter (!·.isNullish) with
    | [t] => t
    | kept => .union kept
  | t => t

end Ty

end CodeCompletion
