import CodeCompletion.Deferred
import CodeCompletion.Pattern.Name
import CodeCompletion.Request

namespace CodeCompletion

/-- What a stage makes of a list. -/
inductive Outcome where
  | unchanged
  | changed (entries : List Entry) (deferred : DeferredMap)

inductive StageError where
  | pattern (error : PatternError)
  /-- The syntax tree has not the shape that the stage relies on. -/
  | unexpectedTree (what : String)
  deriving Repr, DecidableEq

def StageError.message : StageError → String
  | .pattern error => error.message
  | .unexpectedTree what => "syntax tree does not have the expected shape: " ++ what

abbrev StageRun := Request → List Entry → Traced (Except StageError Outcome)

/-- A stage with its name and the settings under which it takes part. -/
structure Stage where
  name : String
  enabled : Settings → Bool
  /-- Whether it can find entries where the engine has none. -/
  fromEmpty : Bool := false
  run : StageRun

namespace Outcome

def entriesOr (old : List Entry) : Outcome → List Entry
  | .unchanged => old
  | .changed entries _ => entries

def entries (new : List Entry) : Outcome := .changed new ∅

/-- A change only if there is one. -/
def entriesIf (isChanged : Bool) (new : List Entry) : Outcome :=
  if isChanged then entries new else .unchanged

/-- What is left of a list; no change when nothing was dropped. -/
def kept (old new : List Entry) : Outcome :=
  entriesIf (new.length != old.length) new

def replaced (edits : List (Entry × Option (List Entry))) : Outcome :=
  entriesIf (edits.any (·.2.isSome)) (edits.flatMap fun (e, new) => new.getD [e])

end Outcome

namespace StageRun

def skip : Traced (Except StageError Outcome) := pure (.ok .unchanged)

def retain (test : Entry → Traced Bool) (entries : List Entry) :
    Traced (Except StageError Outcome) := do
  return .ok (.kept entries (← Traced.filter test entries))

def replace (edit : Entry → Traced (Option (List Entry))) (entries : List Entry) :
    Traced (Except StageError Outcome) := do
  let edits ← Traced.each (fun e => do return (e, ← edit e)) entries
  return .ok (.replaced edits)

def update (edit : Entry → Traced (Option Entry)) (entries : List Entry) :
    Traced (Except StageError Outcome) :=
  replace (fun e => do return (← edit e).map ([·])) entries

end StageRun

def UneditedPlace.arrange (unedited edited : Entry) : UneditedPlace → List Entry
  | .above => [unedited, edited]
  | .below => [edited, unedited]
  | .nowhere => [edited]

end CodeCompletion
