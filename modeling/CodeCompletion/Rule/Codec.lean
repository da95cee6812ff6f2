import CodeCompletion.Json.Decode
import CodeCompletion.Pattern.Glob.Parser
import CodeCompletion.Rule.Basic

namespace CodeCompletion

inductive RuleError where
  | malformed (index : Nat)
  | noAction (index : Nat)
  | conflictingActions (index : Nat) (actions : List String)
  | pattern (index : Nat) (error : PatternError)
  | fileGlob (index : Nat) (error : GlobError)
  deriving Repr, DecidableEq

def RuleError.message : RuleError → String
  | .malformed i => "rule " ++ toString i ++ " is malformed"
  | .noAction i => "rule " ++ toString i ++ " has no action"
  | .conflictingActions i actions =>
    "rule " ++ toString i ++ " has more than one action: " ++ ", ".intercalate actions
  | .pattern i e => "rule " ++ toString i ++ " has an invalid suggestion pattern: " ++ e.message
  | .fileGlob i _ => "rule " ++ toString i ++ " has an invalid fileNamePattern"

namespace Decode

/-- The tag of a known kind. -/
def entryKind : Decoder EntryKind := fun j => (string j).bind EntryKind.ofTag?

def ruleFilter : Decoder RuleFilter :=
  closedRecord ["kind", "kindModifier", "sourceModule", "isSnippet", "sortText", "insertText"] do
    let kind ← optional "kind" entryKind
    let kindModifier ← optional "kindModifier" string
    let sourceModule ← optional "sourceModule" string
    let isSnippet ← optional "isSnippet" bool
    let sortText ← optional "sortText" string
    let insertText ← optional "insertText" string
    return { kind, kindModifier, sourceModule, isSnippet, sortText, insertText }

def rulePatch : Decoder RulePatch :=
  closedRecord ["name", "insertText", "insertSnippet", "kind", "sortText", "sourceDisplay",
      "labelDetails"] do
    let name ← optional "name" string
    let insertText ← optional "insertText" string
    let insertSnippet ← optional "insertSnippet" string
    let kind ← optional "kind" entryKind
    let sortText ← optional "sortText" string
    let sourceDisplay ← optional "sourceDisplay" string
    let labelDetails ← optional "labelDetails" LabelDetails.decode
    return { name, insertText, insertSnippet, kind, sortText, sourceDisplay, labelDetails }

def languages : Decoder (List String) :=
  either (fun j => (string j).map ([·])) (list string)

end Decode

structure RuleText where
  suggestion : String
  fileNamePattern : Option String
  languages : Option (List String)
  filter : RuleFilter
  delete : Bool
  patch : Option RulePatch
  movePos : Option Int
  duplicate : Option Placement
  processMany : Bool
  deriving Repr, DecidableEq

open Decode in
def RuleText.decode : Decoder RuleText :=
  closedRecord ["suggestion", "fileNamePattern", "languageMode", "filter", "delete", "patch",
      "movePos", "duplicateOriginal", "processMany"] do
    let suggestion ← required "suggestion" string
    let fileNamePattern ← withDefault "fileNamePattern" (nullable string) none
    let languages ← withDefault "languageMode" (nullable Decode.languages) none
    let filter ← withDefault "filter" ruleFilter {}
    let delete ← withDefault "delete" bool false
    let patch ← withDefault "patch" (nullable rulePatch) none
    let movePos ← withDefault "movePos" (nullable int64) none
    let duplicate ← withDefault "duplicateOriginal"
      (nullable (oneOf [("before", Placement.before), ("after", .after)])) none
    let processMany ← withDefault "processMany" bool false
    return { suggestion, fileNamePattern, languages, filter, delete, patch, movePos, duplicate,
             processMany }

namespace RuleText

/-- The actions that are asked for, with their names. -/
def actions (t : RuleText) : List (String × RuleEdit) :=
  (if t.delete then [("delete", .delete)] else []) ++
    (t.movePos.map fun offset => ("movePos", RuleEdit.move offset)).toList ++
    match t.duplicate, t.patch with
    | some placement, patch => [("duplicateOriginal", .duplicate placement (patch.getD {}))]
    | none, some patch => [("patch", .patch patch)]
    | none, none => []

def action (index : Nat) (t : RuleText) : Except RuleError RuleEdit :=
  match t.actions with
  | [] => .error (.noAction index)
  | [(_, action)] => .ok action
  | several => .error (.conflictingActions index (several.map (·.1)))

end RuleText

namespace Rule

def parse (index : Nat) (j : Json) : Except RuleError Rule := do
  match RuleText.decode j with
  | none => .error (.malformed index)
  | some t =>
    let action ← t.action index
    let pattern ← match NamePattern.compile t.suggestion with
      | .ok p => .ok p
      | .error e => .error (.pattern index e)
    let fileGlob ← match t.fileNamePattern.map Glob.parse with
      | none => .ok none
      | some (.ok g) => .ok (some g)
      | some (.error e) => .error (.fileGlob index e)
    return { pattern, fileGlob, languages := t.languages, filter := t.filter, action,
             processMany := t.processMany }

/-- The rules that can be read, from an index on, and why the others cannot. -/
def parseAll : Nat → List Json → List Rule × List RuleError
  | _, [] => ([], [])
  | index, j :: js =>
    let (rules, errors) := parseAll (index + 1) js
    match parse index j with
    | .ok rule => (rule :: rules, errors)
    | .error e => (rules, e :: errors)

end Rule

end CodeCompletion
