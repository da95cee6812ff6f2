import CodeCompletion.SortKey
import CodeCompletion.Snippet
import CodeCompletion.Stage.Basic
import CodeCompletion.Types.Widen

namespace CodeCompletion.Stage

open StageRun

/-! ### Callbacks of arrays -/

def arrayCallbackMethods : List String :=
  ["every", "filter", "find", "findIndex", "findLast", "findLastIndex", "flatMap", "forEach",
   "map", "some"]

/-- The singular of a name that looks like a plural: `users` gives `user`. -/
def singular? (name : String) : Option String :=
  let cs := name.toList
  match Text.dropTail? "ies".toList cs with
  | some stem => if stem.isEmpty then none else some (String.ofList (stem ++ ['y']))
  | none =>
    if ["sses", "shes", "ches", "xes"].any (Text.endsWith · name) then
      some (String.ofList cs.dropLast.dropLast)
    else match Text.dropTail? ['s'] cs with
      | some stem =>
        if stem.isEmpty || stem.getLast? == some 's' then none else some (String.ofList stem)
      | none => none

/-- The name of the variable or property that a member is taken of. -/
def receiverName? (r : Request) (receiver : Nat) : Option String :=
  match r.tree.kind? receiver with
  | some .identifier => some (r.tree.text receiver r.document.text)
  | some .propertyAccessExpression =>
    (r.tree.children receiver).getLast?.map fun name => r.tree.text name r.document.text
  | _ => none

def isArray : Ty → Bool
  | .array _ => true
  | _ => false

/-- Completes methods of arrays with a function of one item. -/
def arrayCallbacks : StageRun := fun r entries =>
  if !r.isMember || !r.cursor.snippetPosition then skip
  else match r.memberReceiver? with
    | none => skip
    | some receiver => do
      if (← r.typeOfNode receiver).any isArray then
        let item := ((receiverName? r receiver).bind singular?).getD "item"
        update (fun e => pure (
          if e.isSnippet || !arrayCallbackMethods.contains e.insertion then none
          else some (e.withSnippet (Snippet.escape e.insertion ++ "((" ++
            Snippet.placeholder 1 item ++ ") => $2)")))) entries
      else skip

/-! ### Calls -/

/-- The only signature of a type; overloads are ambiguous. -/
def onlySignature? (construct : Bool) (t : Ty) : Option Signature :=
  match if construct then t.constructSignatures else t.callSignatures with
  | [s] => some s
  | _ => none

def calls : StageRun := fun r entries =>
  if !r.cursor.snippetPosition || r.atPropertyName then skip
  else
    let construct := r.afterNew
    update (fun e => do
      if e.isSnippet || !e.kind.mayBeCallable then return none
      else return ((← r.entryType e).bind (onlySignature? construct)).map fun s =>
        e.withSnippet (Snippet.call e.insertion s r.settings.methodSnippets)) entries

/-! ### Properties of object literals -/

/-- What is put in for a property, and how it is announced. -/
structure Stub where
  insertText : String
  detail : String
  deriving Repr, DecidableEq

def methodStub (name : String) (s : Signature) : Stub where
  insertText := Snippet.escape name ++ "(" ++
    Snippet.placeholders ((Snippet.keptParams .nothing s.params).map (·.name)) ++
    ") \x7b\n\t$0\n\x7d"
  detail := "(…) \x7b\x7d"

def valueStub (name value detail : String) : Stub :=
  ⟨Snippet.escape name ++ ": " ++ value, detail⟩

def stringLiteral? : Ty → Option String
  | .stringLiteral value => some value
  | _ => none

/-- The stub for a property of a type; types without an obvious value only get one when more
variants are wanted. -/
def stub? (name : String) (t : Ty) (moreVariants : Bool) (quote : String) : Option Stub :=
  match t.callSignatures with
  | [s] => some (methodStub name s)
  | signatures =>
    match t with
    | .array _ => some (valueStub name "[$1]" ": []")
    | t =>
      if t.object?.isSome && signatures.isEmpty then
        some (valueStub name "\x7b$1\x7d" ": \x7b\x7d")
      else if !moreVariants then none
      else match t with
        | .string => some (valueStub name (quote ++ "$1" ++ quote) ": \"\"")
        | .bool => some (valueStub name (Snippet.choice 1 ["true", "false"]) ": boolean")
        | .any | .unknown | .never => none
        | .union ms =>
          match ms.mapM stringLiteral? with
          | some values =>
            some (valueStub name (quote ++ Snippet.choice 1 values ++ quote) ": \"…\"")
          | none => some (valueStub name "$1" ": …")
        | _ => some (valueStub name "$1" ": …")

/-- The type by which a property is completed: `null` and `undefined` do not count, and a union
of truth values is the type of truth values. -/
def stubType (t : Ty) : Ty :=
  let t := t.withoutNullish
  if t.isUnion && t.widen == .bool then .bool else t

def objectLiterals : StageRun := fun r entries =>
  if !r.cursor.snippetPosition || !r.atPropertyName then skip
  else
    let settings := r.settings.objectLiteralCompletions
    replace (fun e => do
      if (e.kind == .property || e.kind == .method) && !e.isSnippet then
        let stub := (← r.entryType e).bind fun t =>
          stub? e.insertion (stubType t) settings.moreVariants r.formatting.quotes.mark
        return stub.map fun s =>
          settings.unedited.arrange e ((e.withSnippet s.insertText).withDetail s.detail)
      else return none) entries

/-! ### Taking objects apart -/

def braced (inner : String) : String := "\x7b " ++ inner ++ " \x7d"

/-- The name and the initializer of the variable being named. -/
def namedVariable? (r : Request) : Option (Nat × Nat) := do
  let declaration ← r.enclosing? .variableDeclaration
  let children := r.tree.children declaration
  let name ← children.head?
  let initializer ← children.getLast?
  let naming := r.tree.isKind .identifier name && (r.tree.span? name).any (·.touches r.position)
  if naming && initializer != name && !r.tree.isKind .typeReference initializer
  then some (name, initializer) else none

def destructuringEntry (names : List String) : Entry :=
  (({ name := braced (", ".intercalate names), kind := .variable, sortText := SortKey.boost "0" }
    : Entry).withSnippet (braced (Snippet.placeholders names))).withDescription "destructure"

/-- Offers to take an object apart while a variable is named whose initializer is one. -/
def destructuring : StageRun := fun r entries =>
  match namedVariable? r with
  | none => skip
  | some (name, initializer) => do
    match ← r.typeOfNode initializer with
    | none => skip
    | some t =>
      if t.isCallable || t.properties.isEmpty then skip
      else
        let suggestion := destructuringEntry (t.properties.map (·.name))
        if entries.any (·.name == suggestion.name) then skip
        else
          -- The suggestion takes the place of the whole name, not only of its typed part.
          let kept := { replacementSpan := r.tree.span? name }
          return .ok (.changed (suggestion :: entries)
            (DeferredMap.ofList [(suggestion.name, kept)]))

/-! ### Keywords -/

/-- Keywords that something always follows. -/
def spacedKeywords : List String :=
  ["abstract", "as", "async", "await", "case", "class", "const", "declare", "delete", "enum",
   "export", "extends", "implements", "import", "in", "infer", "instanceof", "interface", "is",
   "keyof", "let", "namespace", "new", "of", "readonly", "satisfies", "throw", "type", "typeof",
   "unique", "var", "void", "yield"]

/-- Puts a blank behind keywords unless there is one. -/
def spaceKeywords : StageRun := fun r entries =>
  if r.cursor.word.after.any Text.isBlank then skip
  else update (fun e => pure (
    if e.kind == .keyword && !e.isSnippet && e.insertText.isNone && spacedKeywords.contains e.name
    then some { e with insertText := some (e.name ++ " ") } else none)) entries

/-! ### Namespace imports -/

def bindsNamespace (name : String) (text : List Char) : Bool :=
  match Text.cutFirst? (· == '*') text with
  | none => false
  | some (_, rest) =>
    match Text.dropHead? "as".toList (Text.trimStart rest) with
    | none => false
    | some rest => (Text.trimStart rest).takeWhile (!Text.isBlank ·) == name.toList

def namesModule (source : String) (text : List Char) : Bool :=
  Text.occursIn ("\"" ++ source ++ "\"").toList text || Text.occursIn ("'" ++ source ++ "'").toList text

def hasNamespaceImport (document : Document) (name source : String) : Bool :=
  let tree := document.tree
  match tree.root? with
  | none => false
  | some root =>
    ((tree.children root).filter (tree.isKind .importDeclaration)).any fun id =>
      let text := (tree.text id document.text).toList
      bindsNamespace name text && namesModule source text

def importStatement (formatting : Formatting) (name source : String) : String :=
  let quote := formatting.quotes.mark
  "import * as " ++ name ++ " from " ++ quote ++ source ++ quote ++
    (if formatting.semicolons then ";" else "") ++ "\n"

def importMetadata (formatting : Formatting) (name source : String) : Deferred :=
  let statement := importStatement formatting name source
  { documentation := some (.append
      ("Adds `" ++ String.ofList (Text.trimEnd statement.toList) ++ "`"))
    additionalEdits := [TextEdit.insertAt 0 statement] }

/-- An entry qualified by the namespace of its module, and what is kept aside for it. -/
def qualify (r : Request) (e : Entry) : Option (Entry × Option Deferred) := do
  let source ← e.importModule?
  let target ← r.settings.namespaceImports.lookup source
  let name := if e.isSnippet then Snippet.escape target.name else target.name
  let qualified := { e with insertText := some (name ++ "." ++ e.insertion), hasAction := false }
  let kept := if target.addImport && !hasNamespaceImport r.document target.name source
    then some (importMetadata r.formatting target.name source) else none
  return (qualified, kept)

/-- Completes entries of the configured modules as members of a namespace; the import of the
namespace is left to the details. -/
def namespaceImports : StageRun := fun r entries =>
  let edits := entries.map fun e => (e, qualify r e)
  if edits.any (·.2.isSome) then
    let kept := edits.filterMap fun (_, q) => q.bind fun (e, m) => m.map (e.name, ·)
    pure (.ok (.changed (edits.map fun (e, q) => (q.map (·.1)).getD e) (DeferredMap.ofList kept)))
  else skip

end CodeCompletion.Stage
