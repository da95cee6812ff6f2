import CodeCompletion.Stage.Visibility

namespace CodeCompletion.Stage

open StageRun

/-- Whether an entry of the kind may turn out to be a function. -/
def isConvertible (k : EntryKind) : Bool :=
  k.isVariableLike || k == .property || k == .alias || k == .getter

/-- Shows values that can be called as functions, and as methods where members are listed. -/
def functionKind : StageRun := fun r entries =>
  update (fun e => do
    if !isConvertible e.kind then return none
    else if (← r.entryType e).any (·.isCallable) then
      return some { e with
        kind := if e.kind == .property || r.isMember then .method else .function }
    else return none) entries

def functionPrototypeMembers : List String :=
  ["apply", "arguments", "bind", "call", "caller", "length", "name", "prototype", "toString",
   "Symbol"]

def prototypeMark : String := "·"

def ownMemberMark : String := "☆"

/-- Tells members that a function has of its own from those that all functions have. -/
def highlightOwnMembers : StageRun := fun _ entries =>
  if ["bind", "call", "caller"].all (listsName entries) then
    pure (.ok (.entries (entries.map fun e =>
      e.decorate (if functionPrototypeMembers.contains e.name then prototypeMark
        else ownMemberMark))))
  else skip

def showImportModule : StageRun := fun r entries =>
  update (fun e => pure (
    match e.importModule?, r.settings.displayImportedInfo with
    | some m, .short => some (e.withDescription m)
    | some m, .long => some { e with sourceDisplay := some ("import from \"" ++ m ++ "\"") }
    | _, _ => none)) entries

end CodeCompletion.Stage
