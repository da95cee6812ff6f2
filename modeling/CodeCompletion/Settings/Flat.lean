import CodeCompletion.Settings.Codec
import CodeCompletion.Text.Split

/-!
# Flat configuration maps

Hosts give settings as a flat map whose dotted keys address nested sections:
`"methodSnippets.skip": "all"`. The keys are expanded in ascending order; a later key may go
through the object that an earlier one has put down, but not through any other value.
-/

namespace CodeCompletion

inductive ConfigError where
  /-- A key goes through a value that is no object. -/
  | conflictingKey (key walked : String)
  /-- A setting has a value of the wrong form. -/
  | invalid
  deriving Repr, DecidableEq

def ConfigError.message : ConfigError → String
  | .conflictingKey key walked =>
    "configuration key `" ++ key ++ "` conflicts with a non-object value at `" ++ walked ++ "`"
  | .invalid => "invalid configuration"

namespace Json.Fields

/-- The object that a path goes on in: the one that is there, or a new one. -/
def inner? : Option Json → Option Fields
  | none => some []
  | some (.obj fields) => some fields
  | some _ => none

/-- Puts a value at the end of a path, or tells the part of the path that ends at a value
through which it cannot go. An object that meets an object is merged into it field by field. -/
def insertAt (value : Json) : List String → Fields → Except (List String) Fields
  | [], fields => .ok fields
  | [key], fields =>
    match fields.get? key, value with
    | some (.obj old), .obj new => .ok (fields.insert key (.obj (insertAll old new)))
    | _, _ => .ok (fields.insert key value)
  | key :: rest, fields =>
    match inner? (fields.get? key) with
    | none => .error [key]
    | some inner =>
      match insertAt value rest inner with
      | .ok inner => .ok (fields.insert key (.obj inner))
      | .error walked => .error (key :: walked)

end Json.Fields

namespace Settings

def segments (key : String) : List String := Text.splitOn (· == '.') key

/-- A path as messages show it; empty segments at its start leave no trace. -/
def showPath (path : List String) : String :=
  ".".intercalate (path.dropWhile (·.isEmpty))

def insertFlat (nested : Json.Fields) (item : String × Json) : Except ConfigError Json.Fields :=
  match Json.Fields.insertAt item.2 (segments item.1) nested with
  | .ok fields => .ok fields
  | .error walked => .error (.conflictingKey item.1 (showPath walked))

/-- The nested configuration that a flat map stands for. -/
def expand (flat : Json.Fields) : Except ConfigError Json.Fields :=
  flat.foldlM insertFlat []

def ofFlat (flat : Json.Fields) : Except ConfigError Settings := do
  match decode (.obj (← expand flat)) with
  | some settings => .ok settings
  | none => .error .invalid

end Settings

end CodeCompletion
