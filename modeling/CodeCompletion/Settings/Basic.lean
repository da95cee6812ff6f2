import CodeCompletion.Json

namespace CodeCompletion

/-- Which parameters of a call get no placeholder. -/
inductive SkippedParams where
  | nothing | onlyRest | optionalAndRest | all
  deriving Repr, DecidableEq, Inhabited

/-- What a placeholder shows of a parameter. -/
inductive PlaceholderText where
  | name | declaration
  deriving Repr, DecidableEq, Inhabited

structure CallSnippets where
  skip : SkippedParams := .optionalAndRest
  insertText : PlaceholderText := .name
  deriving Repr, DecidableEq, Inhabited

/-- Where an entry stands beside its edited copy, if it stays at all. -/
inductive UneditedPlace where
  | above | below | nowhere
  deriving Repr, DecidableEq, Inhabited

structure ObjectLiteralSettings where
  enable : Bool := true
  moreVariants : Bool := false
  unedited : UneditedPlace := .below
  deriving Repr, DecidableEq, Inhabited

/-- What is written behind the name of a tag's attribute. -/
structure AttributePatch where
  insertText : String
  unedited : UneditedPlace := .nowhere
  deriving Repr, DecidableEq, Inhabited

/-- What happens to an attribute: it is shown or hidden, or it is edited. -/
inductive AttributeRule where
  | shown (visible : Bool)
  | patched (patch : AttributePatch)
  deriving Repr, DecidableEq, Inhabited

inductive LibraryNames where
  | leave | mark | remove
  deriving Repr, DecidableEq, Inhabited

inductive KeywordInsertion where
  | space | nothing
  deriving Repr, DecidableEq, Inhabited

inductive ImportedInfo where
  | hidden | short | long
  deriving Repr, DecidableEq, Inhabited

/-- The namespace under which a module is imported as a whole. -/
structure NamespaceImport where
  name : String
  /-- Whether the import itself is written too. -/
  addImport : Bool := true
  deriving Repr, DecidableEq, Inhabited

structure Settings where
  enableMethodSnippets : Bool := true
  methodSnippets : CallSnippets := {}
  objectLiteralCompletions : ObjectLiteralSettings := {}
  caseSensitiveCompletions : Bool := false
  disableFuzzyCompletions : Bool := false
  improveElementSuggestions : Bool := false
  /-- Attribute rules under keys `tag#attribute` or `attribute`, in ascending order. -/
  attributeRules : List (String × AttributeRule) := []
  /-- User rules, kept as they were given, so that a wrong one does not spoil the others. -/
  replaceSuggestions : List Json := []
  correctSorting : Bool := true
  /-- Items `module`, `module#name` or `module#name,name`. -/
  ignoreAutoImports : List String := []
  globalLibCompletions : LibraryNames := .leave
  removeUselessFunctionProps : Bool := false
  highlightNonFunctionMethods : Bool := true
  changeKindToFunction : Bool := false
  localityBonus : Bool := false
  contextualTypeBoost : Bool := false
  fixSuggestionsSorting : Bool := false
  switchExcludeCoveredCases : Bool := true
  arrayMethodsSnippets : Bool := false
  destructuringSuggestion : Bool := false
  keywordsInsertText : KeywordInsertion := .space
  displayImportedInfo : ImportedInfo := .short
  /-- Modules that are imported as namespaces, in ascending order. -/
  namespaceImports : List (String × NamespaceImport) := []
  deriving DecidableEq, Inhabited

end CodeCompletion
