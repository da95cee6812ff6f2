import CodeCompletion.Syntax.Tree
import CodeCompletion.Text.Split

namespace CodeCompletion

inductive ScriptKind where
  | ts | tsx | js | jsx
  deriving Repr, DecidableEq, Inhabited

namespace ScriptKind

/-- The flavour by the part of a file name behind its last full stop. -/
def ofFileName (file : String) : ScriptKind :=
  match ((Text.afterLast? (· == '.') file.toList).map String.ofList).getD "" with
  | "tsx" => .tsx
  | "js" | "mjs" | "cjs" => .js
  | "jsx" => .jsx
  | _ => .ts

def name : ScriptKind → String
  | .ts => "ts"
  | .tsx => "tsx"
  | .js => "js"
  | .jsx => "jsx"

/-- The name editors give to a flavour. -/
def languageId : ScriptKind → String
  | .ts => "typescript"
  | .tsx => "typescriptreact"
  | .js => "javascript"
  | .jsx => "javascriptreact"

def ofName? (s : String) : Option ScriptKind :=
  [ts, tsx, js, jsx].find? (·.name == s)

def supportsJsx : ScriptKind → Bool
  | .tsx | .jsx => true
  | _ => false

end ScriptKind

/-- One version of a file. -/
structure Document where
  fileName : String
  text : String
  version : Nat := 0
  scriptKind : ScriptKind
  tree : SyntaxTree
  deriving Repr, DecidableEq, Inhabited

def Document.ofFile (fileName text : String) (tree : SyntaxTree) : Document :=
  { fileName, text, scriptKind := .ofFileName fileName, tree }

end CodeCompletion
