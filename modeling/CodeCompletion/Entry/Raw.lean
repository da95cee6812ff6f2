import CodeCompletion.Span.Codec
import CodeCompletion.Text.Affix

namespace CodeCompletion

structure LabelDetails where
  detail : Option String := none
  description : Option String := none
  deriving Repr, DecidableEq, Inhabited

/-- One candidate of the engine; its kind is a free-form tag. -/
structure RawEntry where
  name : String
  kind : String
  kindModifiers : String := ""
  sortText : String
  insertText : Option String := none
  isSnippet : Bool := false
  source : Option String := none
  sourceDisplay : Option String := none
  labelDetails : Option LabelDetails := none
  replacementSpan : Option Span := none
  hasAction : Bool := false
  symbol : Option Nat := none
  deriving Repr, DecidableEq, Inhabited

/-- Marks the entry as one to be imported from a module when it is accepted. -/
def RawEntry.autoImport (e : RawEntry) (module_ : String) : RawEntry :=
  { e with source := some module_, hasAction := true }

/-- The engine's answer to one request. -/
structure RawCompletions where
  entries : List RawEntry
  isMemberCompletion : Bool := false
  isNewIdentifierLocation : Bool := false
  optionalReplacementSpan : Option Span := none
  deriving Repr, DecidableEq, Inhabited

def RawCompletions.dropNamed (head : String) (raw : RawCompletions) : RawCompletions :=
  { raw with entries := raw.entries.filter fun e => !Text.startsWith head e.name }

/-! ### JSON -/

def LabelDetails.toJson (d : LabelDetails) : Json :=
  .obj (Json.field? "description" .str d.description ++ Json.field? "detail" .str d.detail)

def LabelDetails.decode : Decoder LabelDetails :=
  Decode.record do
    let detail ← Decode.optional "detail" Decode.string
    let description ← Decode.optional "description" Decode.string
    return ⟨detail, description⟩

def RawEntry.toJson (e : RawEntry) : Json :=
  .obj [
    ("hasAction", .bool e.hasAction),
    ("insertText", Json.ofOption .str e.insertText),
    ("isSnippet", .bool e.isSnippet),
    ("kind", .str e.kind),
    ("kindModifiers", .str e.kindModifiers),
    ("labelDetails", Json.ofOption LabelDetails.toJson e.labelDetails),
    ("name", .str e.name),
    ("replacementSpan", Json.ofOption Span.toJson e.replacementSpan),
    ("sortText", .str e.sortText),
    ("source", Json.ofOption .str e.source),
    ("sourceDisplay", Json.ofOption .str e.sourceDisplay),
    ("symbol", Json.ofOption .nat e.symbol)]

def RawEntry.decode : Decoder RawEntry :=
  Decode.record do
    let name ← Decode.required "name" Decode.string
    let kind ← Decode.required "kind" Decode.string
    let kindModifiers ← Decode.withDefault "kindModifiers" Decode.string ""
    let sortText ← Decode.required "sortText" Decode.string
    let insertText ← Decode.withDefault "insertText" (Decode.nullable Decode.string) none
    let isSnippet ← Decode.withDefault "isSnippet" Decode.bool false
    let source ← Decode.withDefault "source" (Decode.nullable Decode.string) none
    let sourceDisplay ← Decode.withDefault "sourceDisplay" (Decode.nullable Decode.string) none
    let labelDetails ← Decode.withDefault "labelDetails" (Decode.nullable LabelDetails.decode) none
    let replacementSpan ← Decode.withDefault "replacementSpan" (Decode.nullable Span.decode) none
    let hasAction ← Decode.withDefault "hasAction" Decode.bool false
    let symbol ← Decode.withDefault "symbol" (Decode.nullable Decode.nat32) none
    return { name, kind, kindModifiers, sortText, insertText, isSnippet, source, sourceDisplay,
             labelDetails, replacementSpan, hasAction, symbol }

def RawCompletions.toJson (r : RawCompletions) : Json :=
  .obj [
    ("entries", .arr (r.entries.map RawEntry.toJson)),
    ("isMemberCompletion", .bool r.isMemberCompletion),
    ("isNewIdentifierLocation", .bool r.isNewIdentifierLocation),
    ("optionalReplacementSpan", Json.ofOption Span.toJson r.optionalReplacementSpan)]

def RawCompletions.decode : Decoder RawCompletions :=
  Decode.record do
    let entries ← Decode.required "entries" (Decode.list RawEntry.decode)
    let isMemberCompletion ← Decode.withDefault "isMemberCompletion" Decode.bool false
    let isNewIdentifierLocation ← Decode.withDefault "isNewIdentifierLocation" Decode.bool false
    let optionalReplacementSpan ←
      Decode.withDefault "optionalReplacementSpan" (Decode.nullable Span.decode) none
    return { entries, isMemberCompletion, isNewIdentifierLocation, optionalReplacementSpan }

end CodeCompletion
