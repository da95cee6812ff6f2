import CodeCompletion.Settings.Basic
import CodeCompletion.Types.Display

/-!
# Snippets

A snippet is a text with places to fill in: `$1` is a tab stop, `${1:text}` a placeholder that
shows a text, `${1|a,b|}` a choice. A backslash takes away the meaning of the character behind
it.
-/

namespace CodeCompletion.Snippet

def escapeWhere (isSpecial : Char → Bool) (text : String) : String :=
  String.ofList (text.toList.flatMap fun c => if isSpecial c then ['\\', c] else [c])

/-- Text that stands for itself, in placeholders and outside. -/
def escape (text : String) : String :=
  escapeWhere (fun c => c == '$' || c == '\x7d' || c == '\\') text

/-- Text that stands for itself in a choice. -/
def escapeOption (text : String) : String :=
  escapeWhere (fun c => c == '$' || c == '\x7d' || c == '\\' || c == ',' || c == '|') text

def placeholder (index : Nat) (text : String) : String :=
  "$\x7b" ++ toString index ++ ":" ++ escape text ++ "\x7d"

def choice (index : Nat) (options : List String) : String :=
  "$\x7b" ++ toString index ++ "|" ++ ",".intercalate (options.map escapeOption) ++ "|\x7d"

def placeholders (texts : List String) : String :=
  ", ".intercalate (texts.mapIdx fun i text => placeholder (i + 1) text)

/-! ### Calls -/

/-- The parameters without those at the end that take no value. -/
def significantParams (params : List Param) : List Param :=
  (params.reverse.dropWhile fun p => p.ty.isVoid || p.ty.isPromiseOfVoid).reverse

def isKept : SkippedParams → Param → Bool
  | .nothing, _ => true
  | .onlyRest, p => !p.rest
  | .optionalAndRest, p => !p.rest && !p.optional
  | .all, _ => false

def keptParams (skip : SkippedParams) (params : List Param) : List Param :=
  (significantParams params).filter (isKept skip)

def paramText : PlaceholderText → Param → String
  | .name, p => p.name
  | .declaration, p => p.display

/-- A call of `name`: a placeholder for each kept parameter. Where none is kept the cursor ends
up between the brackets, or behind them if there is nothing to fill in. -/
def call (name : String) (signature : Signature) (settings : CallSnippets) : String :=
  let inner := match keptParams settings.skip signature.params with
    | [] => if (significantParams signature.params).isEmpty then "" else "$0"
    | kept => placeholders (kept.map (paramText settings.insertText))
  escape name ++ "(" ++ inner ++ ")"

end CodeCompletion.Snippet
