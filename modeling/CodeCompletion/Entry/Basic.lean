import CodeCompletion.Entry.Kind
import CodeCompletion.Entry.Raw
import CodeCompletion.Text.Blank
import CodeCompletion.Text.Split

namespace CodeCompletion

/-- One candidate. -/
structure Entry where
  name : String
  insertText : Option String := none
  isSnippet : Bool := false
  kind : EntryKind
  kindModifiers : String := ""
  sortText : String
  source : Option String := none
  sourceDisplay : Option String := none
  labelDetails : Option LabelDetails := none
  replacementSpan : Option Span := none
  hasAction : Bool := false
  symbol : Option Nat := none
  /-- The place in the engine's list of the entry that this one stems from; none for an entry
  that the engine did not list. It is never shown. -/
  origin : Option Nat := none
  deriving Repr, DecidableEq, Inhabited

namespace Entry

def ofRaw (raw : RawEntry) : Entry where
  name := raw.name
  insertText := raw.insertText
  isSnippet := raw.isSnippet
  kind := .ofEngineTag raw.kind
  kindModifiers := raw.kindModifiers
  sortText := raw.sortText
  source := raw.source
  sourceDisplay := raw.sourceDisplay
  labelDetails := raw.labelDetails
  replacementSpan := raw.replacementSpan
  hasAction := raw.hasAction
  symbol := raw.symbol

/-- The entries that an engine's list becomes, each with its place in that list. -/
def ofRawList (raws : List RawEntry) : List Entry :=
  raws.mapIdx fun i raw => { ofRaw raw with origin := some i }

/-- The text that accepting the entry inserts. -/
def insertion (e : Entry) : String := e.insertText.getD e.name

def hasModifier (e : Entry) (modifier : String) : Bool :=
  (Text.pieces (· == ',') e.kindModifiers.toList).any fun m => Text.trim m == modifier.toList

def isAutoImport (e : Entry) : Bool := e.hasAction && e.source.isSome

def importModule? (e : Entry) : Option String := if e.hasAction then e.source else none

def withSnippet (e : Entry) (snippet : String) : Entry :=
  { e with insertText := some snippet, isSnippet := true }

/-- Puts a mark in front of the name and keeps what is inserted. -/
def decorate (e : Entry) (mark : String) : Entry :=
  { e with insertText := some e.insertion, name := mark ++ e.name }

def withDetail (e : Entry) (detail : String) : Entry :=
  { e with labelDetails := some { e.labelDetails.getD {} with detail := some detail } }

def withDescription (e : Entry) (description : String) : Entry :=
  { e with
    labelDetails := some { e.labelDetails.getD {} with description := some description } }

@[simp] theorem insertion_decorate (e : Entry) (mark : String) :
    (e.decorate mark).insertion = e.insertion := rfl

@[simp] theorem insertion_withSnippet (e : Entry) (snippet : String) :
    (e.withSnippet snippet).insertion = snippet := rfl

def toJson (e : Entry) : Json :=
  .obj (
    [("hasAction", .bool e.hasAction)] ++
    Json.field? "insertText" .str e.insertText ++
    [("isSnippet", .bool e.isSnippet), ("kind", .str e.kind.tag)] ++
    (if e.kindModifiers.isEmpty then [] else [("kindModifiers", .str e.kindModifiers)]) ++
    Json.field? "labelDetails" LabelDetails.toJson e.labelDetails ++
    [("name", .str e.name)] ++
    Json.field? "replacementSpan" Span.toJson e.replacementSpan ++
    [("sortText", .str e.sortText)] ++
    Json.field? "source" .str e.source ++
    Json.field? "sourceDisplay" .str e.sourceDisplay ++
    Json.field? "symbol" .nat e.symbol)

end Entry

end CodeCompletion
