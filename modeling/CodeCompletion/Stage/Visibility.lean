import CodeCompletion.Stage.Basic
import CodeCompletion.Text.LetterCase

namespace CodeCompletion.Stage

open StageRun

/-! ### Ignored imports -/

/-- Names of a module that are not to be imported; no name means all of them. -/
structure IgnoredImport where
  source : NamePattern
  names : List NamePattern
  deriving Repr, DecidableEq

namespace IgnoredImport

/-- Reads `module`, `module#name` or `module#name,name`; blanks around the parts do not count,
and names without characters are passed over. -/
def parse (item : String) : Except PatternError IgnoredImport := do
  let (source, names) := (Text.cutFirst? (· == '#') item.toList).getD (item.toList, [])
  let names := ((Text.pieces (· == ',') names).map Text.trim).filter (!·.isEmpty)
  let names ← names.mapM fun n => NamePattern.compile (String.ofList n)
  let source ← NamePattern.compile (String.ofList (Text.trim source))
  return { source, names }

def covers (i : IgnoredImport) (source name : String) : Bool :=
  i.source.accepts source && (i.names.isEmpty || i.names.any (·.accepts name))

end IgnoredImport

/-- The items that can be read, and an event for each of the others. -/
def readIgnoredImports : List String → List IgnoredImport × List Event
  | [] => ([], [])
  | item :: items =>
    let (read, events) := readIgnoredImports items
    match IgnoredImport.parse item with
    | .ok i => (i :: read, events)
    | .error e => (read, .importItemSkipped item e.message :: events)

def ignoreAutoImports : StageRun := fun r entries => do
  let (ignored, events) := readIgnoredImports r.settings.ignoreAutoImports
  Traced.report events
  retain (fun e => pure (!(e.importModule?.any fun m => ignored.any (·.covers m e.name)))) entries

/-! ### Fit with the typed word -/

/-- Hides entries whose first character differs in case from the first typed one. -/
def caseSensitive : StageRun := fun r entries =>
  if r.typed.isEmpty then skip
  else retain (fun e => pure (Text.firstCaseAgrees e.name r.typed)) entries

/-- Hides entries that do not start with the typed part of the word, up to ASCII case. -/
def strictStart : StageRun := fun r entries =>
  if r.typed.isEmpty then skip
  else retain (fun e => pure (Text.startsWithIgnoringAsciiCase r.typed e.name)) entries

/-! ### Names of the standard library -/

def libraryMark : String := "🏛 "

/-- What such an entry's details start with. -/
def libraryDetail : String := "(global) "

/-- Whether a file belongs to the standard library: `lib.*.d.ts` in any directory. -/
def isLibraryFile (path : String) : Bool :=
  let file := (Text.afterLast? (Text.isOneOf ['/', '\\']) path.toList).getD path.toList
  "lib.".toList.isPrefixOf file && ".d.ts".toList.isSuffixOf file

/-- Whether all declarations of what an entry stands for are in the standard library. -/
def isLibraryName (r : Request) (e : Entry) : Traced Bool := do
  return (← r.entrySymbol e).any fun s =>
    !s.declarations.isEmpty && s.declarations.all fun d => isLibraryFile d.file

def globalLibrary : StageRun := fun r entries =>
  match r.settings.globalLibCompletions with
  | .leave => skip
  | .remove => retain (fun e => do return !(← isLibraryName r e)) entries
  | .mark => do
    let marked ← Traced.each (fun e => do
      return if ← isLibraryName r e then (e.decorate libraryMark, true) else (e, false)) entries
    let names := (marked.filter (·.2)).map (·.1.name)
    if names.isEmpty then skip
    else
      let kept := names.map fun n => (n, { detailPrefix := some libraryDetail })
      return .ok (.changed (marked.map (·.1)) (DeferredMap.ofList kept))

/-! ### Members of every function -/

def uselessFunctionMembers : List String := ["Symbol", "arguments", "caller"]

def listsName (entries : List Entry) (name : String) : Bool := entries.any (·.name == name)

/-- Whether members of a function are listed: what comes before the dot can be called, or the
list has the methods that all functions have. -/
def listsFunctionMembers (r : Request) (entries : List Entry) : Traced Bool := do
  let receiver ← Traced.ofOption r.typeOfNode r.memberReceiver?
  return receiver.any (·.isCallable) || ["apply", "bind", "call"].all (listsName entries)

def removeUselessFunctionProps : StageRun := fun r entries => do
  if !r.isMember then skip
  else if ← listsFunctionMembers r entries then
    retain (fun e => pure (!uselessFunctionMembers.contains e.name)) entries
  else skip

end CodeCompletion.Stage
