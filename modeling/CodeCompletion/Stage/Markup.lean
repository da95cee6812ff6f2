import CodeCompletion.Snippet
import CodeCompletion.Stage.Basic
import CodeCompletion.Text.LetterCase

namespace CodeCompletion.Stage

open StageRun

/-! ### Elements -/

mutual

/-- Whether a call that returns the type makes an element. -/
def isElementType : Ty → Bool
  | .any | .null | .undefined => true
  | .named name =>
    Text.startsWith "JSX." name || Text.endsWith "Element" name || Text.endsWith "ReactNode" name
  | .union ms => areElementTypes ms
  | _ => false

def areElementTypes : List Ty → Bool
  | [] => true
  | t :: ts => isElementType t && areElementTypes ts

end

mutual

/-- Whether a value of the type can be the name of a tag: it makes elements, can be constructed,
or is a namespace of such values. -/
def isComponentType : Ty → Bool
  | .any | .unknown => true
  | .object o =>
    !o.constructSignatures.isEmpty || o.callSignatures.any (fun s => isElementType s.ret) ||
      (o.callSignatures.isEmpty && !o.properties.isEmpty)
  | .union ms => areComponentTypes ms
  | _ => false

def areComponentTypes : List Ty → Bool
  | [] => true
  | t :: ts => isComponentType t && areComponentTypes ts

end

def atTag (r : Request) : Bool :=
  r.document.scriptKind.supportsJsx && (r.atTagName || r.cursor.word.before == some '<')

/-- What an entry is remembered under, given the file that declares it. -/
def componentKey (r : Request) (e : Entry) (file : Option String) : ComponentKey :=
  let file := file.getD r.document.fileName
  { file, name := e.name, version := if file = r.document.fileName then r.document.version else 0 }

/-- Whether an entry is a component, as remembered or else by its type, with what is known
afterwards. An entry without a type counts as one. -/
def isComponent (r : Request) (known : ComponentCache) (e : Entry) :
    Traced (Bool × ComponentCache) :=
  let file := r.declarationFile e
  let key := componentKey r e file.value
  match known[key]? with
  | some verdict => ⟨(verdict, known), file.trace⟩
  | none =>
    let ty := r.entryType e
    let verdict := ty.value.all isComponentType
    ⟨(verdict, known.insert key verdict), file.trace ++ ty.trace ++ [.remember key verdict]⟩

/-- What the kind and the name of an entry say about its use as an element, if they do. -/
def elementByKind? (e : Entry) : Option Bool :=
  match e.kind with
  | .keyword | .interface | .typeAlias | .typeParameter | .primitiveType | .enum
  | .enumMember => some false
  | .module | .externalModuleName | .property => some true
  | _ => if e.name.toList.head?.any Text.isLowercase then some false else none

def canBeElement (r : Request) (known : ComponentCache) (e : Entry) :
    Traced (Bool × ComponentCache) :=
  match elementByKind? e with
  | some verdict => pure (verdict, known)
  | none => isComponent r known e

/-- The entries that can be elements, each judged with what is known after those before it. -/
def elementsAmong (r : Request) : ComponentCache → List Entry → Traced (List Entry)
  | _, [] => ⟨[], []⟩
  | known, e :: es =>
    let ⟨(verdict, known), trace⟩ := canBeElement r known e
    let rest := elementsAmong r known es
    ⟨if verdict then e :: rest.value else rest.value, trace ++ rest.trace⟩

/-- Hides entries that cannot be elements where the name of a tag is written. -/
def elements : StageRun := fun r entries =>
  if atTag r then do return .ok (.kept entries (← elementsAmong r r.components entries))
  else skip

/-! ### Attributes -/

/-- An attribute rule with the tags and attributes it is for. -/
structure ScopedRule where
  tag : NamePattern
  attr : NamePattern
  rule : AttributeRule
  deriving Repr, DecidableEq

namespace ScopedRule

/-- Reads a key `tag#attribute`; a key without a tag is for all tags. -/
def parse (key : String) (rule : AttributeRule) : Except PatternError ScopedRule := do
  let (tag, attr) := (Text.cutFirst? (· == '#') key.toList).getD (['*'], key.toList)
  let tag ← NamePattern.compile (String.ofList tag)
  let attr ← NamePattern.compile (String.ofList attr)
  return { tag, attr, rule }

/-- Smaller for a rule that says more exactly what it is for; the tag counts before the
attribute. -/
def tier (s : ScopedRule) : Nat :=
  match s.tag.isWildcard, s.attr.isWildcard with
  | false, false => 0
  | false, true => 1
  | true, false => 2
  | true, true => 3

def covers (s : ScopedRule) (tag attr : String) : Bool :=
  s.tag.accepts tag && s.attr.accepts attr

/-- What becomes of an entry; nothing is said about one that stays as it is. -/
def apply (s : ScopedRule) (e : Entry) : Option (List Entry) :=
  match s.rule with
  | .shown true => none
  | .shown false => some []
  | .patched p => some (p.unedited.arrange e (e.withSnippet (Snippet.escape e.name ++ p.insertText)))

end ScopedRule

/-- All rules, more exact ones first and otherwise in the order of their keys. -/
def scopedRules (rules : List (String × AttributeRule)) : Except PatternError (List ScopedRule) := do
  let read ← rules.mapM fun (key, rule) => ScopedRule.parse key rule
  return read.mergeSort fun a b => a.tier ≤ b.tier

/-- The tag whose attribute list the innermost of the nodes lies in, unless an expression comes
in between. -/
def attributeListTag? (tree : SyntaxTree) : List Nat → Option Nat
  | [] => none
  | id :: rest =>
    match tree.kind? id with
    | some .jsxExpression => none
    | some .jsxAttributes =>
      (tree.parent? id).filter fun tag => (tree.kind? tag).any (·.isTag)
    | _ => attributeListTag? tree rest

def attributes : StageRun := fun r entries =>
  match attributeListTag? r.tree r.ancestors with
  | none => skip
  | some tag =>
    match r.tree.firstChild? tag with
    | none => pure (.error (.unexpectedTree "JSX tag without a name"))
    | some name =>
      match scopedRules r.settings.attributeRules with
      | .error e => pure (.error (.pattern e))
      | .ok rules =>
        let tagName := r.tree.text name r.document.text
        replace (fun e =>
          pure ((rules.find? (·.covers tagName e.name)).bind (·.apply e))) entries

end CodeCompletion.Stage
