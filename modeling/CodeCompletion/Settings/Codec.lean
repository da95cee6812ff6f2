import CodeCompletion.Json.Decode
import CodeCompletion.Settings.Basic

namespace CodeCompletion

/-! ### Choices and their spellings -/

def SkippedParams.table : List (String × SkippedParams) :=
  [("no-skip", .nothing), ("only-rest", .onlyRest), ("optional-and-rest", .optionalAndRest),
   ("all", .all)]

def PlaceholderText.table : List (String × PlaceholderText) :=
  [("always-name", .name), ("always-declaration", .declaration)]

def UneditedPlace.table : List (String × UneditedPlace) :=
  [("above", .above), ("below", .below), ("remove", .nowhere)]

def LibraryNames.table : List (String × LibraryNames) :=
  [("none", .leave), ("mark", .mark), ("remove", .remove)]

def KeywordInsertion.table : List (String × KeywordInsertion) :=
  [("space", .space), ("none", .nothing)]

def ImportedInfo.table : List (String × ImportedInfo) :=
  [("none", .hidden), ("short-format", .short), ("long-format", .long)]

def spelling {α : Type} [BEq α] (table : List (String × α)) (a : α) : Json :=
  .str (((table.find? fun p => p.2 == a).map Prod.fst).getD "")

/-! ### Reading -/

namespace Decode

/-- A record with one flag, which is off when it is missing. -/
def toggle (key : String) : Decoder Bool :=
  record (withDefault key bool false)

def callSnippets : Decoder CallSnippets :=
  record do
    let skip ← withDefault "skip" (oneOf SkippedParams.table) .optionalAndRest
    let insertText ← withDefault "insertText" (oneOf PlaceholderText.table) .name
    return { skip, insertText }

def objectLiteralSettings : Decoder ObjectLiteralSettings :=
  record do
    let enable ← withDefault "enable" bool true
    let moreVariants ← withDefault "moreVariants" bool false
    let unedited ← withDefault "keepOriginal" (oneOf UneditedPlace.table) .below
    return { enable, moreVariants, unedited }

def attributePatch : Decoder AttributePatch :=
  record do
    let insertText ← required "insertText" string
    let unedited ← withDefault "keepOriginal" (oneOf UneditedPlace.table) .nowhere
    return { insertText, unedited }

def attributeRule : Decoder AttributeRule :=
  either (fun j => (bool j).map .shown) (fun j => (attributePatch j).map .patched)

def namespaceImport : Decoder NamespaceImport :=
  record do
    let name ← required "namespace" string
    let addImport ← withDefault "addImport" bool true
    return { name, addImport }

end Decode

open Decode in
/-- Reads settings; what is missing takes its default. -/
def Settings.decode : Decoder Settings :=
  record do
    let enableMethodSnippets ← withDefault "enableMethodSnippets" bool true
    let methodSnippets ← withDefault "methodSnippets" callSnippets {}
    let objectLiteralCompletions ← withDefault "objectLiteralCompletions" objectLiteralSettings {}
    let caseSensitiveCompletions ← withDefault "caseSensitiveCompletions" bool false
    let disableFuzzyCompletions ← withDefault "disableFuzzyCompletions" bool false
    let improveElementSuggestions ←
      withDefault "jsxImproveElementsSuggestions" (toggle "enabled") false
    let attributeRules ← withDefault "jsxCompletionsMap" (map attributeRule) []
    let replaceSuggestions ← withDefault "replaceSuggestions" (list some) []
    let correctSorting ← withDefault "correctSorting" (toggle "enable") true
    let ignoreAutoImports ← withDefault "ignoreAutoImports" (list string) []
    let globalLibCompletions ← withDefault "globalLibCompletions" (oneOf LibraryNames.table) .leave
    let removeUselessFunctionProps ←
      withDefault "removeUselessFunctionProps" (toggle "enable") false
    let highlightNonFunctionMethods ←
      withDefault "highlightNonFunctionMethods" (toggle "enable") true
    let changeKindToFunction ← withDefault "changeKindToFunction" bool false
    let localityBonus ← withDefault "localityBonus" bool false
    let contextualTypeBoost ← withDefault "contextualTypeBoost" bool false
    let fixSuggestionsSorting ← withDefault "fixSuggestionsSorting" bool false
    let switchExcludeCoveredCases ← withDefault "switchExcludeCoveredCases" bool true
    let arrayMethodsSnippets ← withDefault "arrayMethodsSnippets" (toggle "enable") false
    let destructuringSuggestion ← withDefault "destructuringSuggestion" (toggle "enable") false
    let keywordsInsertText ← withDefault "suggestions"
      (record (withDefault "keywordsInsertText" (oneOf KeywordInsertion.table) .space)) .space
    let displayImportedInfo ← withDefault "displayImportedInfo" (oneOf ImportedInfo.table) .short
    let namespaceImports ← withDefault "autoImport"
      (record (withDefault "changeToNamespaceImport" (map namespaceImport) [])) []
    return {
      enableMethodSnippets, methodSnippets, objectLiteralCompletions, caseSensitiveCompletions,
      disableFuzzyCompletions, improveElementSuggestions, attributeRules, replaceSuggestions,
      correctSorting, ignoreAutoImports, globalLibCompletions, removeUselessFunctionProps,
      highlightNonFunctionMethods, changeKindToFunction, localityBonus, contextualTypeBoost,
      fixSuggestionsSorting, switchExcludeCoveredCases, arrayMethodsSnippets,
      destructuringSuggestion, keywordsInsertText, displayImportedInfo, namespaceImports }

/-! ### Writing -/

def AttributeRule.toJson : AttributeRule → Json
  | .shown visible => .bool visible
  | .patched p =>
    .obj [("insertText", .str p.insertText),
      ("keepOriginal", spelling UneditedPlace.table p.unedited)]

def NamespaceImport.toJson (n : NamespaceImport) : Json :=
  .obj [("addImport", .bool n.addImport), ("namespace", .str n.name)]

def Settings.toJson (s : Settings) : Json :=
  let toggle (b : Bool) : Json := .obj [("enable", .bool b)]
  .obj [
    ("arrayMethodsSnippets", toggle s.arrayMethodsSnippets),
    ("autoImport", .obj [("changeToNamespaceImport",
      .obj (s.namespaceImports.map fun (key, n) => (key, n.toJson)))]),
    ("caseSensitiveCompletions", .bool s.caseSensitiveCompletions),
    ("changeKindToFunction", .bool s.changeKindToFunction),
    ("contextualTypeBoost", .bool s.contextualTypeBoost),
    ("correctSorting", toggle s.correctSorting),
    ("destructuringSuggestion", toggle s.destructuringSuggestion),
    ("disableFuzzyCompletions", .bool s.disableFuzzyCompletions),
    ("displayImportedInfo", spelling ImportedInfo.table s.displayImportedInfo),
    ("enableMethodSnippets", .bool s.enableMethodSnippets),
    ("fixSuggestionsSorting", .bool s.fixSuggestionsSorting),
    ("globalLibCompletions", spelling LibraryNames.table s.globalLibCompletions),
    ("highlightNonFunctionMethods", toggle s.highlightNonFunctionMethods),
    ("ignoreAutoImports", .arr (s.ignoreAutoImports.map .str)),
    ("jsxCompletionsMap", .obj (s.attributeRules.map fun (key, r) => (key, r.toJson))),
    ("jsxImproveElementsSuggestions", .obj [("enabled", .bool s.improveElementSuggestions)]),
    ("localityBonus", .bool s.localityBonus),
    ("methodSnippets", .obj [
      ("insertText", spelling PlaceholderText.table s.methodSnippets.insertText),
      ("skip", spelling SkippedParams.table s.methodSnippets.skip)]),
    ("objectLiteralCompletions", .obj [
      ("enable", .bool s.objectLiteralCompletions.enable),
      ("keepOriginal", spelling UneditedPlace.table s.objectLiteralCompletions.unedited),
      ("moreVariants", .bool s.objectLiteralCompletions.moreVariants)]),
    ("removeUselessFunctionProps", toggle s.removeUselessFunctionProps),
    ("replaceSuggestions", .arr s.replaceSuggestions),
    ("suggestions", .obj [
      ("keywordsInsertText", spelling KeywordInsertion.table s.keywordsInsertText)]),
    ("switchExcludeCoveredCases", .bool s.switchExcludeCoveredCases)]

end CodeCompletion
