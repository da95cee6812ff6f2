/-!
# Kinds of syntax nodes

The closed set of node kinds that completion looks at. Shapes relied upon, children in order:

* a class declaration has its name, heritage clauses and its body;
* a `try` statement has its block, perhaps a catch clause, perhaps a final block;
* an `if` statement has its condition, a statement and perhaps another one;
* a `switch` statement has its discriminant and its case block, a case clause its test first;
* a property access has the receiver and the name;
* a variable declaration has the name or pattern, perhaps a type and perhaps an initializer;
* an opening or self-closing tag has its name and its attribute list.
-/

namespace CodeCompletion

inductive SyntaxKind where
  | sourceFile | block | identifier | stringLiteral | numericLiteral | expressionStatement
  | variableStatement | variableDeclaration | objectBindingPattern | propertyAccessExpression
  | callExpression | newExpression | arrowFunction | functionDeclaration | parameter
  | returnStatement | objectLiteralExpression | propertyAssignment | shorthandPropertyAssignment
  | methodDeclaration | arrayLiteralExpression | classDeclaration | classBody | heritageClause
  | ifStatement | tryStatement | catchClause | switchStatement | caseBlock | caseClause
  | defaultClause | importDeclaration | importClause | namedImports | importSpecifier
  | namespaceImport | exportDeclaration | exportSpecifier | typeReference | decorator
  | jsxElement | jsxSelfClosingElement | jsxOpeningElement | jsxClosingElement | jsxAttributes
  | jsxAttribute | jsxExpression | jsxText | error
  deriving Repr, DecidableEq, Inhabited

namespace SyntaxKind

def all : List SyntaxKind :=
  [.sourceFile, .block, .identifier, .stringLiteral, .numericLiteral, .expressionStatement,
   .variableStatement, .variableDeclaration, .objectBindingPattern, .propertyAccessExpression,
   .callExpression, .newExpression, .arrowFunction, .functionDeclaration, .parameter,
   .returnStatement, .objectLiteralExpression, .propertyAssignment,
   .shorthandPropertyAssignment, .methodDeclaration, .arrayLiteralExpression, .classDeclaration,
   .classBody, .heritageClause, .ifStatement, .tryStatement, .catchClause, .switchStatement,
   .caseBlock, .caseClause, .defaultClause, .importDeclaration, .importClause, .namedImports,
   .importSpecifier, .namespaceImport, .exportDeclaration, .exportSpecifier, .typeReference,
   .decorator, .jsxElement, .jsxSelfClosingElement, .jsxOpeningElement, .jsxClosingElement,
   .jsxAttributes, .jsxAttribute, .jsxExpression, .jsxText, .error]

def name : SyntaxKind → String
  | .sourceFile => "SourceFile"
  | .block => "Block"
  | .identifier => "Identifier"
  | .stringLiteral => "StringLiteral"
  | .numericLiteral => "NumericLiteral"
  | .expressionStatement => "ExpressionStatement"
  | .variableStatement => "VariableStatement"
  | .variableDeclaration => "VariableDeclaration"
  | .objectBindingPattern => "ObjectBindingPattern"
  | .propertyAccessExpression => "PropertyAccessExpression"
  | .callExpression => "CallExpression"
  | .newExpression => "NewExpression"
  | .arrowFunction => "ArrowFunction"
  | .functionDeclaration => "FunctionDeclaration"
  | .parameter => "Parameter"
  | .returnStatement => "ReturnStatement"
  | .objectLiteralExpression => "ObjectLiteralExpression"
  | .propertyAssignment => "PropertyAssignment"
  | .shorthandPropertyAssignment => "ShorthandPropertyAssignment"
  | .methodDeclaration => "MethodDeclaration"
  | .arrayLiteralExpression => "ArrayLiteralExpression"
  | .classDeclaration => "ClassDeclaration"
  | .classBody => "ClassBody"
  | .heritageClause => "HeritageClause"
  | .ifStatement => "IfStatement"
  | .tryStatement => "TryStatement"
  | .catchClause => "CatchClause"
  | .switchStatement => "SwitchStatement"
  | .caseBlock => "CaseBlock"
  | .caseClause => "CaseClause"
  | .defaultClause => "DefaultClause"
  | .importDeclaration => "ImportDeclaration"
  | .importClause => "ImportClause"
  | .namedImports => "NamedImports"
  | .importSpecifier => "ImportSpecifier"
  | .namespaceImport => "NamespaceImport"
  | .exportDeclaration => "ExportDeclaration"
  | .exportSpecifier => "ExportSpecifier"
  | .typeReference => "TypeReference"
  | .decorator => "Decorator"
  | .jsxElement => "JsxElement"
  | .jsxSelfClosingElement => "JsxSelfClosingElement"
  | .jsxOpeningElement => "JsxOpeningElement"
  | .jsxClosingElement => "JsxClosingElement"
  | .jsxAttributes => "JsxAttributes"
  | .jsxAttribute => "JsxAttribute"
  | .jsxExpression => "JsxExpression"
  | .jsxText => "JsxText"
  | .error => "Error"

def ofName? (s : String) : Option SyntaxKind :=
  all.find? fun k => k.name == s

/-- Tags that carry attributes. -/
def isTag : SyntaxKind → Bool
  | .jsxOpeningElement | .jsxSelfClosingElement => true
  | _ => false

/-- Nodes that only occur in import and export declarations. -/
def isImportOrExport : SyntaxKind → Bool
  | .importDeclaration | .importClause | .namedImports | .importSpecifier | .namespaceImport
  | .exportDeclaration | .exportSpecifier => true
  | _ => false

end SyntaxKind

end CodeCompletion
