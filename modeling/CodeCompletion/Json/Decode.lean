import CodeCompletion.Json

/-!
# Reading records out of JSON values

A record is read from an object, by key, or from an array, by position in the order in which
its fields are declared. A field is required, has a default, or is optional; an optional field
may be null and may be missing from an object, but an array has to bring it. Extra items of an
array are refused, and so are unknown keys where the record is closed.
-/

namespace CodeCompletion

/-- Reads a value of a type, or refuses the JSON value. -/
abbrev Decoder (α : Type) := Json → Option α

namespace Decode

/-! ### Plain values -/

/-- Only `true` and `false`. -/
def bool : Decoder Bool
  | .bool b => some b
  | _ => none

/-- Only strings; nothing is converted to one. -/
def string : Decoder String
  | .str s => some s
  | _ => none

def intWithin (low high : Int) : Decoder Int
  | .int n => if low ≤ n ∧ n ≤ high then some n else none
  | _ => none

def int64 : Decoder Int := intWithin (-9223372036854775808) 9223372036854775807

/-- Counts and offsets: integers of 32 bits without sign. -/
def nat32 : Decoder Nat := fun j => (intWithin 0 4294967295 j).map Int.toNat

def nat64 : Decoder Nat := fun j => (intWithin 0 18446744073709551615 j).map Int.toNat

def nullable {α : Type} (decode : Decoder α) : Decoder (Option α)
  | .null => some none
  | j => (decode j).map some

def list {α : Type} (decode : Decoder α) : Decoder (List α)
  | .arr items => items.mapM decode
  | _ => none

/-- An object whose values can all be read, in ascending order of its keys. -/
def map {α : Type} (decode : Decoder α) : Decoder (List (String × α))
  | .obj fields => fields.mapM fun f => (decode f.2).map (f.1, ·)
  | _ => none

/-- The first reader that accepts the value wins. -/
def either {α : Type} (first second : Decoder α) : Decoder α := fun j =>
  (first j).orElse fun _ => second j

/-- One of the named values, written as its name or as an object that maps its name to null. -/
def oneOf {α : Type} (table : List (String × α)) : Decoder α
  | .str s => table.lookup s
  | .obj [(key, .null)] => table.lookup key
  | _ => none

/-! ### Records -/

/-- What is left of a record while its fields are read. -/
inductive Source where
  /-- An object: fields are found by key. -/
  | keyed (fields : Json.Fields)
  /-- An array: each field takes the next item. -/
  | ordered (items : List Json)

/-- Reads the next field of a record. -/
abbrev Reader (α : Type) := StateT Source Option α

def next (key : String) : Reader (Option Json) := fun src =>
  match src with
  | .keyed fields => some (fields.lookup key, src)
  | .ordered [] => some (none, src)
  | .ordered (j :: rest) => some (some j, .ordered rest)

def isOrdered : Reader Bool := fun src =>
  match src with
  | .keyed _ => some (false, src)
  | .ordered _ => some (true, src)

def required {α : Type} (key : String) (decode : Decoder α) : Reader α := do
  match ← next key with
  | some j => (decode j : Option α)
  | none => failure

def withDefault {α : Type} (key : String) (decode : Decoder α) (default : α) : Reader α := do
  match ← next key with
  | some j => (decode j : Option α)
  | none => pure default

/-- A field that may be null, and may be missing from an object. -/
def optional {α : Type} (key : String) (decode : Decoder α) : Reader (Option α) := do
  match ← next key with
  | some j => (nullable decode j : Option (Option α))
  | none => if ← isOrdered then failure else pure none

/-- Reads a record; unknown keys are passed over. -/
def record {α : Type} (reader : Reader α) : Decoder α
  | .obj fields => (reader (.keyed fields)).map Prod.fst
  | .arr items =>
    match reader (.ordered items) with
    | some (a, .ordered []) => some a
    | _ => none
  | _ => none

/-- Reads a record that has no keys but the given ones. -/
def closedRecord {α : Type} (keys : List String) (reader : Reader α) : Decoder α := fun j =>
  match j with
  | .obj fields => if fields.all fun f => keys.contains f.1 then record reader j else none
  | _ => record reader j

end Decode

end CodeCompletion
