import CodeCompletion.Span.Codec
import Std.Data.TreeMap

namespace CodeCompletion

/-- How deferred documentation combines with the engine's. -/
inductive DocumentationChange where
  | replace (text : String)
  | append (text : String)
  deriving Repr, DecidableEq

/-- What is kept aside for one entry. -/
structure Deferred where
  documentation : Option DocumentationChange := none
  detailPrefix : Option String := none
  replacementSpan : Option Span := none
  additionalEdits : List TextEdit := []
  deriving Repr, DecidableEq, Inhabited

structure EntryDetails where
  name : String
  detail : String := ""
  documentation : String := ""
  replacementSpan : Option Span := none
  additionalEdits : List TextEdit := []
  deriving Repr, DecidableEq, Inhabited

/-- Documentation after an edit; appended text stands in a paragraph of its own. -/
def DocumentationChange.apply (old : String) : DocumentationChange → String
  | .replace text => text
  | .append text => if old.isEmpty then text else old ++ "\n\n" ++ text

namespace Deferred

/-- Both together: single values of `later` win, edits add up in order. -/
def merge (earlier later : Deferred) : Deferred where
  documentation := later.documentation.or earlier.documentation
  detailPrefix := later.detailPrefix.or earlier.detailPrefix
  replacementSpan := later.replacementSpan.or earlier.replacementSpan
  additionalEdits := earlier.additionalEdits ++ later.additionalEdits

/-- The details with the metadata worked in. -/
def apply (m : Deferred) (d : EntryDetails) : EntryDetails where
  name := d.name
  detail := m.detailPrefix.getD "" ++ d.detail
  documentation := (m.documentation.map (·.apply d.documentation)).getD d.documentation
  replacementSpan := m.replacementSpan.or d.replacementSpan
  additionalEdits := d.additionalEdits ++ m.additionalEdits

end Deferred

abbrev DeferredMap := Std.TreeMap String Deferred

namespace DeferredMap

def mergeAt (m : DeferredMap) (name : String) (later : Deferred) : DeferredMap :=
  m.alter name fun old => some ((old.getD {}).merge later)

def mergeAll (m delta : DeferredMap) : DeferredMap :=
  delta.foldl mergeAt m

/-- A map from entries in order; the last one under a name stays. -/
def ofList (items : List (String × Deferred)) : DeferredMap :=
  items.foldl (fun m (name, metadata) => m.insert name metadata) ∅

/-- Gives the name `target` what is kept under the name `source` too. -/
def carry (m : DeferredMap) (source target : String) : DeferredMap :=
  if source = target then m
  else match m[source]? with
    | some metadata => mergeAt m target metadata
    | none => m

def restrict (m : DeferredMap) (names : List String) : DeferredMap :=
  m.filter fun name _ => names.contains name

end DeferredMap

/-! ### JSON -/

def DocumentationChange.toJson : DocumentationChange → Json
  | .replace text => .obj [("mode", .str "replace"), ("text", .str text)]
  | .append text => .obj [("mode", .str "append"), ("text", .str text)]

def editsField (edits : List TextEdit) : List (String × Json) :=
  if edits.isEmpty then [] else [("additionalEdits", .arr (edits.map TextEdit.toJson))]

def Deferred.toJson (m : Deferred) : Json :=
  .obj (editsField m.additionalEdits ++ Json.field? "detailPrefix" .str m.detailPrefix ++
    Json.field? "documentation" DocumentationChange.toJson m.documentation ++
    Json.field? "replacementSpan" Span.toJson m.replacementSpan)

def EntryDetails.toJson (d : EntryDetails) : Json :=
  .obj (editsField d.additionalEdits ++
    [("detail", .str d.detail), ("documentation", .str d.documentation), ("name", .str d.name)] ++
    Json.field? "replacementSpan" Span.toJson d.replacementSpan)

def DeferredMap.toJson (m : DeferredMap) : Json :=
  .obj (m.toList.map fun (name, metadata) => (name, metadata.toJson))

end CodeCompletion
