import CodeCompletion.Deferred
import CodeCompletion.Document
import CodeCompletion.Entry.Basic
import CodeCompletion.Pattern.Glob
import CodeCompletion.Pattern.Name

namespace CodeCompletion

/-- Fields that an entry must have besides its name; what is not given does not count. -/
structure RuleFilter where
  kind : Option EntryKind := none
  kindModifier : Option String := none
  sourceModule : Option String := none
  isSnippet : Option Bool := none
  sortText : Option String := none
  insertText : Option String := none
  deriving Repr, DecidableEq, Inhabited

def RuleFilter.accepts (f : RuleFilter) (e : Entry) : Bool :=
  f.kind.all (e.kind == ·) && f.kindModifier.all e.hasModifier &&
    f.sourceModule.all (e.source == some ·) && f.isSnippet.all (e.isSnippet == ·) &&
    f.sortText.all (e.sortText == ·) && f.insertText.all (e.insertText == some ·)

/-- New values for fields of an entry; what is not given stays as it is. -/
structure RulePatch where
  name : Option String := none
  insertText : Option String := none
  insertSnippet : Option String := none
  kind : Option EntryKind := none
  sortText : Option String := none
  sourceDisplay : Option String := none
  labelDetails : Option LabelDetails := none
  deriving Repr, DecidableEq, Inhabited

def LabelDetails.override (old new : LabelDetails) : LabelDetails :=
  ⟨new.detail.or old.detail, new.description.or old.description⟩

/-- The entry with its new fields. Of a plain and a snippet text the snippet wins. -/
def RulePatch.apply (p : RulePatch) (e : Entry) : Entry :=
  { e with
    name := p.name.getD e.name
    insertText := p.insertSnippet.or (p.insertText.or e.insertText)
    isSnippet := p.insertSnippet.isSome || (p.insertText.isNone && e.isSnippet)
    kind := p.kind.getD e.kind
    sortText := p.sortText.getD e.sortText
    sourceDisplay := p.sourceDisplay.or e.sourceDisplay
    labelDetails := match p.labelDetails with
      | some new => some ((e.labelDetails.getD {}).override new)
      | none => e.labelDetails }

inductive Placement where
  | before | after
  deriving Repr, DecidableEq, Inhabited

inductive RuleEdit where
  | delete
  | patch (patch : RulePatch)
  /-- Moves the entry by a number of places, down the list if it is positive. -/
  | move (offset : Int)
  | duplicate (placement : Placement) (patch : RulePatch)
  deriving Repr, DecidableEq

structure Rule where
  pattern : NamePattern
  fileGlob : Option Glob := none
  languages : Option (List String) := none
  filter : RuleFilter := {}
  action : RuleEdit
  /-- Whether all matching entries are meant, or only the first one. -/
  processMany : Bool := false
  deriving Repr

namespace Rule

def appliesTo (rule : Rule) (document : Document) : Bool :=
  rule.fileGlob.all (·.accepts document.fileName) &&
    rule.languages.all fun modes => modes.any fun mode =>
      mode == document.scriptKind.name || mode == document.scriptKind.languageId

def picks (rule : Rule) (e : Entry) : Bool :=
  rule.pattern.accepts e.name && rule.filter.accepts e

end Rule

end CodeCompletion
