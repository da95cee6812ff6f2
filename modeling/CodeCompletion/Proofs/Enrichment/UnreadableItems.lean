import CodeCompletion.Proofs.Enrichment.Insertions
import CodeCompletion.Proofs.Enrichment.Rounding
import CodeCompletion.Proofs.Enrichment.Unlogged
import CodeCompletion.Proofs.Pattern.Wildcards

/-!
# Items that cannot be read

Three lists of the settings hold items with patterns: ignored imports, user rules and attribute
rules. Settings from which the same items are read give the same answers. An ignored import or a
rule that cannot be read is passed over, so that it is as if it were not there. Of attribute rules
one that cannot be read takes away all others.
-/

namespace CodeCompletion

/-! ### What is read -/

namespace Stage

theorem readAttributes_of_unreadable (front : List (String × AttributeRule)) (key : String)
    (rule : AttributeRule) (back : List (String × AttributeRule))
    (hkey : (ScopedRule.patternTexts key).all NamePattern.isReadable = false) :
    readAttributes (front ++ (key, rule) :: back) = [] := by
  have hok : (scopedRules (front ++ (key, rule) :: back)).isOk = false := by
    rw [isOk_scopedRules, List.all_append, List.all_cons, hkey, Bool.false_and, Bool.and_false]
  rw [readAttributes, toOption_of_not_isOk hok]
  rfl

end Stage

/-- Settings that differ at most in the lists of items, from which they read the same. -/
structure Settings.ReadsAlike (a b : Settings) : Prop where
  others : b = { a with
    ignoreAutoImports := b.ignoreAutoImports
    attributeRules := b.attributeRules
    replaceSuggestions := b.replaceSuggestions }
  imports : (Stage.readIgnoredImports a.ignoreAutoImports).1 =
    (Stage.readIgnoredImports b.ignoreAutoImports).1
  attributes : Stage.readAttributes a.attributeRules = Stage.readAttributes b.attributeRules
  rules : (Rule.parseAll 0 a.replaceSuggestions).1 = (Rule.parseAll 0 b.replaceSuggestions).1

/-! ### What the stages do with it -/

namespace Stage

def importStage : Stage :=
  { name := "ignore_auto_imports", enabled := (!·.ignoreAutoImports.isEmpty),
    run := ignoreAutoImports }

def attributeStage : Stage :=
  { name := "jsx_attributes", enabled := (!·.attributeRules.isEmpty), run := attributes }

section Work

variable (r : Request) (entries : List Entry)

theorem work_congr (stage : Stage) {r r' : Request} {entries : List Entry}
    (henabled : stage.enabled r.settings = stage.enabled r'.settings)
    (hrun : stage.run r entries = stage.run r' entries) :
    stage.work r entries = stage.work r' entries := by
  rw [work, work, henabled, stage.run.effect_of_eq r r' entries hrun, hrun]

/-- Whether an entry would be imported from where no imports are wanted. -/
def isIgnored (ignored : List IgnoredImport) (e : Entry) : Bool :=
  e.importModule?.any fun m => ignored.any (·.covers m e.name)

theorem work_importStage :
    importStage.work r entries = (.kept entries (entries.filter
      (!isIgnored (readIgnoredImports r.settings.ignoreAutoImports).1 ·)), []) := by
  have htrace : (ignoreAutoImports r entries).trace.filter (!·.isReport) = [] := by
    rw [ignoreAutoImports, Traced.trace_bind, StageRun.trace_retain]
    simp [Traced.report, Act.isReport]
  have hvalue : StageRun.effect ignoreAutoImports r entries =
      .kept entries (entries.filter
        (!isIgnored (readIgnoredImports r.settings.ignoreAutoImports).1 ·)) := by
    rw [StageRun.effect, ignoreAutoImports, Traced.value_bind, StageRun.retain, Traced.value_bind,
      Traced.value_filter]
    rfl
  unfold work
  split
  · exact Prod.ext hvalue htrace
  · rename_i hoff
    have hnone : r.settings.ignoreAutoImports = [] := by simpa [importStage] using hoff
    have hkept : entries.filter
        (!isIgnored (readIgnoredImports r.settings.ignoreAutoImports).1 ·) = entries := by
      simp [hnone, readIgnoredImports, isIgnored]
    rw [hkept]
    simp [Outcome.kept, Outcome.entriesIf]

theorem work_attributeStage :
    attributeStage.work r entries =
      (.replaced (entries.map fun e => (e, (attributeRule? r e.name).bind (·.apply e))), []) := by
  have htrace : (attributes r entries).trace.filter (!·.isReport) = [] := by
    rw [trace_attributes]
    rfl
  unfold work
  split
  · exact Prod.ext (effect_attributes r) htrace
  · rename_i hoff
    have hnone : r.settings.attributeRules = [] := by simpa [attributeStage] using hoff
    simp only [attributeRule?_of_no_rules r hnone]
    simp [Outcome.replaced, Outcome.entriesIf]

end Work

end Stage

namespace Settings.ReadsAlike

variable {a b : Settings} (h : a.ReadsAlike b)

include h

theorem work_eq (stage : Stage) (hmem : stage ∈ Stage.table) (r : Request) (entries : List Entry) :
    stage.work { r with settings := a } entries = stage.work { r with settings := b } entries := by
  simp only [Stage.table, List.mem_cons, List.not_mem_nil, or_false] at hmem
  rcases hmem with rfl | rfl | rfl | rfl | rfl | rfl | rfl | rfl | rfl | rfl | rfl | rfl | rfl |
    rfl | rfl | rfl | rfl | rfl | rfl | rfl | rfl | rfl
  · show Stage.importStage.work _ entries = Stage.importStage.work _ entries
    rw [Stage.work_importStage, Stage.work_importStage, h.imports]
  iterate 2
    rw [h.others]
    rfl
  · refine Stage.work_congr Stage.elementStage ?_ ?_
    · show a.improveElementSuggestions = b.improveElementSuggestions
      rw [h.others]
    · exact Stage.elements_congr { r with settings := a } { r with settings := b } rfl rfl
        (fun _ _ => rfl) entries
  iterate 13
    rw [h.others]
    rfl
  · show Stage.attributeStage.work _ entries = Stage.attributeStage.work _ entries
    rw [Stage.work_attributeStage, Stage.work_attributeStage]
    simp only [Stage.attributeRule?_eq, h.attributes]
    rfl
  iterate 4
    rw [h.others]
    rfl

theorem worksLike (r : Request) :
    Request.WorksLike { r with settings := a } { r with settings := b } where
  document := rfl
  checker := rfl
  work stage hmem entries := h.work_eq stage hmem r entries
  starts stage hmem hempty := by
    have hfirst : ∀ stage ∈ Stage.table, stage.fromEmpty = true →
        stage.enabled a = a.destructuringSuggestion ∧
          stage.enabled b = b.destructuringSuggestion := by
      simp [Stage.table]
    obtain ⟨ha, hb⟩ := hfirst stage hmem hempty
    rw [ha, hb, h.others]
  rules := h.rules
  sorting := by
    show a.correctSorting = b.correctSorting
    rw [h.others]

theorem servedAlike (s : Session) (source : Engine) (request : HostRequest) (now : Nat) :
    s.ServedAlike a b source request now :=
  Session.servedAlike_of_worksLike h.worksLike

end Settings.ReadsAlike

/-! ### Items that cost only themselves -/

section Items

variable (settings : Settings)

theorem readsAlike_without_import (front : List String) (item : String) (back : List String)
    (hitem : (Stage.IgnoredImport.patternTexts item).all NamePattern.isReadable = false) :
    Settings.ReadsAlike { settings with ignoreAutoImports := front ++ item :: back }
      { settings with ignoreAutoImports := front ++ back } where
  others := rfl
  imports := by
    rw [Stage.readIgnoredImports_eq, Stage.readIgnoredImports_eq]
    exact filterMap_toOption_skip _ front item back
      ((Stage.IgnoredImport.isOk_parse item).trans hitem)
  attributes := rfl
  rules := rfl

theorem readsAlike_without_rule (front : List Json) (rule : Json) (back : List Json)
    (hrule : ∀ t, RuleText.decode rule = some t → NamePattern.isReadable t.suggestion = false) :
    Settings.ReadsAlike { settings with replaceSuggestions := front ++ rule :: back }
      { settings with replaceSuggestions := front ++ back } where
  others := rfl
  imports := rfl
  attributes := rfl
  rules := by
    rw [Rule.parseAll_eq, Rule.parseAll_eq]
    exact filterMap_toOption_skip _ front rule back (Rule.isOk_parse_of_unreadable 0 rule hrule)

/-- An attribute key that cannot be read does what no attribute rules at all would do. -/
theorem readsAlike_without_attributes (front : List (String × AttributeRule)) (key : String)
    (rule : AttributeRule) (back : List (String × AttributeRule))
    (hkey : (Stage.ScopedRule.patternTexts key).all NamePattern.isReadable = false) :
    Settings.ReadsAlike { settings with attributeRules := front ++ (key, rule) :: back }
      { settings with attributeRules := [] } where
  others := rfl
  imports := rfl
  attributes := by
    rw [Stage.readAttributes_of_unreadable front key rule back hkey, Stage.readAttributes_nil]
  rules := rfl

end Items

namespace Session

section Served

variable (s : Session) (source : Engine) (request : HostRequest) (now : Nat)

/-- An ignored import or a rule with a text that is no pattern changes no answer and leaves nothing
behind but events. An attribute key with such a text does so exactly where the other attribute rules
change nothing either, since none of them is applied. -/
theorem unreadable_items_are_passed_over_iff :
    (∀ (front : List String) (item : String) (back : List String),
      (Stage.IgnoredImport.patternTexts item).all NamePattern.isReadable = false →
      s.ServedAlike { s.settings with ignoreAutoImports := front ++ item :: back }
        { s.settings with ignoreAutoImports := front ++ back } source request now) ∧
    (∀ (front : List Json) (rule : Json) (back : List Json),
      (∀ t, RuleText.decode rule = some t → NamePattern.isReadable t.suggestion = false) →
      s.ServedAlike { s.settings with replaceSuggestions := front ++ rule :: back }
        { s.settings with replaceSuggestions := front ++ back } source request now) ∧
    ∀ (front : List (String × AttributeRule)) (key : String) (rule : AttributeRule)
      (back : List (String × AttributeRule)),
      (Stage.ScopedRule.patternTexts key).all NamePattern.isReadable = false →
      s.ServedAlike { s.settings with attributeRules := front ++ (key, rule) :: back }
          { s.settings with attributeRules := [] } source request now ∧
        (s.ServedAlike { s.settings with attributeRules := front ++ (key, rule) :: back }
            { s.settings with attributeRules := front ++ back } source request now ↔
          s.ServedAlike { s.settings with attributeRules := front ++ back }
            { s.settings with attributeRules := [] } source request now) := by
  refine ⟨fun front item back hitem => ?_, fun front rule back hrule => ?_,
    fun front key rule back hkey => ?_⟩
  · exact (readsAlike_without_import s.settings front item back hitem).servedAlike s source request
      now
  · exact (readsAlike_without_rule s.settings front rule back hrule).servedAlike s source request
      now
  · have hnone := (readsAlike_without_attributes s.settings front key rule back hkey).servedAlike s
      source request now
    exact ⟨hnone, fun h => h.symm.trans hnone, fun h => hnone.trans h.symm⟩

end Served

/-! ### Attributes of a tag -/

def tagRequest : HostRequest where
  document := .ofFile "/p/src/App.tsx" "<div c />" attributeTree
  offset := 6
  checker := Program.checker {}

theorem unreadable_import_is_passed_over :
    (Stage.IgnoredImport.patternTexts "lib*a*#map").all NamePattern.isReadable = false ∧
    ServedAlike {} { ignoreAutoImports := ["react#use*", "lib*a*#map", "node:path"] }
      { ignoreAutoImports := ["react#use*", "node:path"] } (fun _ _ _ => some attributeNames)
      tagRequest 0 := by
  have hitem : (Stage.IgnoredImport.patternTexts "lib*a*#map").all NamePattern.isReadable =
      false := by decide
  exact ⟨hitem, (unreadable_items_are_passed_over_iff {} _ tagRequest 0).1 ["react#use*"]
    "lib*a*#map" ["node:path"] hitem⟩

def hidingSession (keys : List String) : Session where
  settings := {
    attributeRules := keys.map fun key => (key, .shown false)
    correctSorting := false }

/-- The key that hides the attribute is not looked at because of the other one. -/
theorem unreadable_key_shows_hidden_attribute :
    (Stage.ScopedRule.patternTexts "*a*").all NamePattern.isReadable = false ∧
    ((hidingSession ["*a*", "className"]).enrichRaw tagRequest attributeNames 0).value.entries.map
      (·.name) = ["className", "id"] ∧
    ((hidingSession ["className"]).enrichRaw tagRequest attributeNames 0).value.entries.map
      (·.name) = ["id"] := by
  have hentries (keys : List String) :
      ((hidingSession keys).enrichRaw tagRequest attributeNames 0).value.entries =
        Stage.effects ((hidingSession keys).stageRequest tagRequest attributeNames)
          (enabledStages (hidingSession keys).settings) (Entry.ofRawList attributeNames.entries) :=
    entries_enrichRaw_of_isQuiet _ _ _ 0 (Program.isQuiet_checker {}) rfl (List.cons_ne_nil _ _) rfl
      rfl
  refine ⟨by decide, ?_, ?_⟩
  · rw [hentries]
    decide +kernel
  · rw [hentries]
    decide +kernel

end Session

end CodeCompletion
