import CodeCompletion.Span.Codec

namespace CodeCompletion

inductive SymbolKind where
  | variable | function | classType | interface | typeAlias | enum | enumMember | property | method
  | parameter | alias | module
  deriving Repr, DecidableEq, Inhabited

namespace SymbolKind

def table : List (String × SymbolKind) :=
  [("variable", .variable), ("function", .function), ("class", .classType),
   ("interface", .interface), ("typeAlias", .typeAlias), ("enum", .enum),
   ("enumMember", .enumMember), ("property", .property), ("method", .method),
   ("parameter", .parameter), ("alias", .alias), ("module", .module)]

def name : SymbolKind → String
  | .variable => "variable"
  | .function => "function"
  | .classType => "class"
  | .interface => "interface"
  | .typeAlias => "typeAlias"
  | .enum => "enum"
  | .enumMember => "enumMember"
  | .property => "property"
  | .method => "method"
  | .parameter => "parameter"
  | .alias => "alias"
  | .module => "module"

theorem lookup_table (k : SymbolKind) : table.lookup k.name = some k := by
  cases k <;> rfl

def decode : Decoder SymbolKind := Decode.oneOf table

end SymbolKind

structure Declaration where
  file : String
  span : Span
  deriving Repr, DecidableEq, Inhabited

structure Symbol where
  name : String
  kind : SymbolKind
  declarations : List Declaration := []
  deriving Repr, DecidableEq, Inhabited

namespace Symbol

def declaredIn (s : Symbol) (file : String) (span : Span) : Symbol :=
  { s with declarations := s.declarations ++ [⟨file, span⟩] }

def declarationFile? (s : Symbol) : Option String := s.declarations.head?.map (·.file)

end Symbol

def Declaration.toJson (d : Declaration) : Json :=
  .obj [("file", .str d.file), ("span", d.span.toJson)]

def Declaration.decode : Decoder Declaration :=
  Decode.record do
    let file ← Decode.required "file" Decode.string
    let span ← Decode.required "span" Span.decode
    return ⟨file, span⟩

def Symbol.toJson (s : Symbol) : Json :=
  .obj [("declarations", .arr (s.declarations.map Declaration.toJson)),
    ("kind", .str s.kind.name), ("name", .str s.name)]

def Symbol.decode : Decoder Symbol :=
  Decode.record do
    let name ← Decode.required "name" Decode.string
    let kind ← Decode.required "kind" SymbolKind.decode
    let declarations ← Decode.required "declarations" (Decode.list Declaration.decode)
    return ⟨name, kind, declarations⟩

end CodeCompletion
