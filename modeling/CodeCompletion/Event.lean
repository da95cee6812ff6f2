import CodeCompletion.Json

namespace CodeCompletion

inductive Event where
  | stageChanged (stage : String) (before after : Nat)
  | stageFailed (stage error : String)
  | stageCrashed (stage reason : String)
  | cancelledBefore (stage : String)
  | ruleSkipped (error : String)
  | importItemSkipped (item error : String)
  | unknownKindTag (tag : String)
  | settingsIgnored (error : String)
  | componentsDropped (file : String) (dropped : Nat)
  | detailsExpired (request : Nat)
  deriving Repr, DecidableEq

namespace Event

def level : Event → String
  | .stageChanged .. | .componentsDropped .. | .detailsExpired .. => "TRACE"
  | .cancelledBefore .. => "DEBUG"
  | .stageCrashed .. => "ERROR"
  | _ => "WARN"

def message : Event → String
  | .stageChanged .. => "stage changed entries"
  | .stageFailed .. => "completion stage failed"
  | .stageCrashed .. => "completion stage panicked"
  | .cancelledBefore .. => "completion cancelled"
  | .ruleSkipped .. => "skipping completion rule"
  | .importItemSkipped .. => "skipping ignoreAutoImports item"
  | .unknownKindTag .. => "unrecognized completion kind tag from engine"
  | .settingsIgnored .. => "ignoring invalid completion settings"
  | .componentsDropped .. => "invalidated JSX component cache"
  | .detailsExpired .. => "deferred completion metadata expired"

def fields : Event → List (String × Json)
  | .stageChanged stage before after =>
    [("stage", .str stage), ("before", .nat before), ("after", .nat after)]
  | .stageFailed stage error => [("stage", .str stage), ("error", .str error)]
  | .stageCrashed stage reason => [("stage", .str stage), ("panic", .str reason)]
  | .cancelledBefore stage => [("stage", .str stage)]
  | .ruleSkipped error => [("error", .str error)]
  | .importItemSkipped item error => [("item", .str item), ("error", .str error)]
  | .unknownKindTag tag => [("tag", .str tag)]
  | .settingsIgnored error => [("error", .str error)]
  | .componentsDropped file dropped => [("file", .str file), ("dropped", .nat dropped)]
  | .detailsExpired request => [("request_id", .str ("#" ++ toString request))]

def toJson (e : Event) : Json :=
  Json.ofFields ([("level", .str e.level), ("message", .str e.message)] ++ e.fields)

end Event

def logToJson (events : List Event) : Json := .arr (events.map Event.toJson)

end CodeCompletion
