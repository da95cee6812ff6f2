import CodeCompletion.Stage.CoveredCases
import CodeCompletion.Stage.Insertion
import CodeCompletion.Stage.Labels
import CodeCompletion.Stage.Markup
import CodeCompletion.Stage.Ranking

namespace CodeCompletion.Stage

/-- All stages, in the order in which they run. -/
def table : List Stage :=
  [{ name := "ignore_auto_imports", enabled := (!·.ignoreAutoImports.isEmpty),
     run := ignoreAutoImports },
   { name := "case_sensitive", enabled := (·.caseSensitiveCompletions), run := caseSensitive },
   { name := "strict_prefix", enabled := (·.disableFuzzyCompletions), run := strictStart },
   { name := "jsx_elements", enabled := (·.improveElementSuggestions), run := elements },
   { name := "global_lib", enabled := (·.globalLibCompletions != .leave), run := globalLibrary },
   { name := "switch_case_exclude_covered", enabled := (·.switchExcludeCoveredCases),
     run := excludeCovered },
   { name := "remove_useless_function_props", enabled := (·.removeUselessFunctionProps),
     run := removeUselessFunctionProps },
   { name := "function_kind", enabled := (·.changeKindToFunction), run := functionKind },
   { name := "highlight_non_function_methods", enabled := (·.highlightNonFunctionMethods),
     run := highlightOwnMembers },
   { name := "keyword_boost", enabled := fun _ => true, run := boostKeywords },
   { name := "contextual_type_boost", enabled := (·.contextualTypeBoost), run := boostByType },
   { name := "locality_bonus", enabled := (·.localityBonus), run := boostByLocality },
   { name := "fix_properties_sorting", enabled := (·.fixSuggestionsSorting),
     run := sortProperties },
   { name := "display_imported_info", enabled := (·.displayImportedInfo != .hidden),
     run := showImportModule },
   { name := "array_method_snippets", enabled := (·.arrayMethodsSnippets),
     run := arrayCallbacks },
   { name := "method_snippets", enabled := (·.enableMethodSnippets), run := calls },
   { name := "object_literal_completions", enabled := (·.objectLiteralCompletions.enable),
     run := objectLiterals },
   { name := "jsx_attributes", enabled := (!·.attributeRules.isEmpty), run := attributes },
   { name := "destructuring_suggestion", enabled := (·.destructuringSuggestion),
     fromEmpty := true, run := destructuring },
   { name := "keyword_space", enabled := (·.keywordsInsertText == .space), run := spaceKeywords },
   { name := "namespace_import", enabled := (!·.namespaceImports.isEmpty),
     run := namespaceImports },
   { name := "sort_normalize", enabled := fun _ => true, run := normalizeOrder }]

end CodeCompletion.Stage
