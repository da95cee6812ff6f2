namespace CodeCompletion

/-- The coarse category of a candidate. -/
inductive EntryKind where
  | unknown | warning | keyword | script | module | externalModuleName | directory | classType
  | localClass | interface | typeAlias | enum | enumMember | variable | localVariable | constant
  | letBinding | usingBinding | function | localFunction | method | getter | setter | accessor
  | property | constructor | callSignature | constructSignature | indexSignature | parameter
  | typeParameter | primitiveType | label | alias | jsxAttribute | string | link
  deriving Repr, DecidableEq, Inhabited

namespace EntryKind

def all : List EntryKind :=
  [.unknown, .warning, .keyword, .script, .module, .externalModuleName, .directory, .classType,
   .localClass, .interface, .typeAlias, .enum, .enumMember, .variable, .localVariable,
   .constant, .letBinding, .usingBinding, .function, .localFunction, .method, .getter, .setter,
   .accessor, .property, .constructor, .callSignature, .constructSignature, .indexSignature,
   .parameter, .typeParameter, .primitiveType, .label, .alias, .jsxAttribute, .string, .link]

def tag : EntryKind → String
  | .unknown => ""
  | .warning => "warning"
  | .keyword => "keyword"
  | .script => "script"
  | .module => "module"
  | .externalModuleName => "external module name"
  | .directory => "directory"
  | .classType => "class"
  | .localClass => "local class"
  | .interface => "interface"
  | .typeAlias => "type"
  | .enum => "enum"
  | .enumMember => "enum member"
  | .variable => "var"
  | .localVariable => "local var"
  | .constant => "const"
  | .letBinding => "let"
  | .usingBinding => "using"
  | .function => "function"
  | .localFunction => "local function"
  | .method => "method"
  | .getter => "getter"
  | .setter => "setter"
  | .accessor => "accessor"
  | .property => "property"
  | .constructor => "constructor"
  | .callSignature => "call"
  | .constructSignature => "construct"
  | .indexSignature => "index"
  | .parameter => "parameter"
  | .typeParameter => "type parameter"
  | .primitiveType => "primitive type"
  | .label => "label"
  | .alias => "alias"
  | .jsxAttribute => "JSX attribute"
  | .string => "string"
  | .link => "link"

/-- Tags that stand for a kind besides its canonical one. -/
def aliases : List (String × EntryKind) :=
  [("await using", .usingBinding), ("link name", .link), ("link text", .link)]

def ofTag? (s : String) : Option EntryKind :=
  (all.find? fun k => k.tag == s).orElse fun _ => aliases.lookup s

/-- The kind an engine means by a tag; a tag it does not know becomes the unknown kind. -/
def ofEngineTag (s : String) : EntryKind := (ofTag? s).getD .unknown

def unknownTagMessage (s : String) : String :=
  "unrecognized completion kind `" ++ s ++ "`"

def isFunctionLike : EntryKind → Bool
  | .function | .localFunction | .method | .constructor => true
  | _ => false

def isVariableLike : EntryKind → Bool
  | .variable | .localVariable | .constant | .letBinding | .usingBinding | .parameter => true
  | _ => false

def mayBeCallable (k : EntryKind) : Bool :=
  k.isFunctionLike || k.isVariableLike ||
    match k with
    | .property | .alias | .classType | .localClass | .getter => true
    | _ => false

end EntryKind

end CodeCompletion
