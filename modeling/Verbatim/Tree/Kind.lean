/-! What a node is: a file, a token, a piece of code or a declaration. A language may add kinds of
its own. -/

namespace Verbatim

structure CustomKind where
  language : String
  name : String
  /-- What to print in front of a made node of this kind; without it such nodes cannot be
  printed. -/
  defaultLeading : Option String
  deriving DecidableEq, Repr

inductive Kind where
  | sourceFile
  | plainText
  | endOfFile
  | identifier
  | keyword
  | modifier
  | literal
  | punctuation
  | block
  | statement
  | expression
  | group
  | package
  | importDecl
  | qualifiedName
  | classDecl
  | methodDecl
  | variableDecl
  | declarator
  | enumValue
  | annotationUse
  | typeRef
  | typeParameters
  | typeArguments
  | parameters
  | parameter
  | throws
  | custom (kind : CustomKind)
  deriving DecidableEq, Repr

namespace Kind

def common : List Kind :=
  [sourceFile, plainText, endOfFile, identifier, keyword, modifier, literal, punctuation, block,
    statement, expression, group, package, importDecl, qualifiedName, classDecl, methodDecl,
    variableDecl, declarator, enumValue, annotationUse, typeRef, typeParameters, typeArguments,
    parameters, parameter, throws]

def name : Kind → String
  | sourceFile => "source_file"
  | plainText => "plain_text"
  | endOfFile => "eof"
  | identifier => "identifier"
  | keyword => "keyword"
  | modifier => "modifier"
  | literal => "literal"
  | punctuation => "punct"
  | block => "block"
  | statement => "statement"
  | expression => "expression"
  | group => "group"
  | package => "package"
  | importDecl => "import"
  | qualifiedName => "qualified_name"
  | classDecl => "class_decl"
  | methodDecl => "method_decl"
  | variableDecl => "variable_decl"
  | declarator => "variable"
  | enumValue => "enum_value"
  | annotationUse => "annotation"
  | typeRef => "type_ref"
  | typeParameters => "type_parameters"
  | typeArguments => "type_arguments"
  | parameters => "parameters"
  | parameter => "parameter"
  | throws => "throws"
  | custom kind => kind.name

def ofName? (name : String) : Option Kind := common.find? (·.name = name)

theorem ofName?_name {kind : Kind} (listed : kind ∈ common) : ofName? kind.name = some kind := by
  revert kind
  decide

/-- A custom kind is shown together with its language. -/
def display : Kind → String
  | custom kind => kind.language ++ "::" ++ kind.name
  | kind => kind.name

/-- Kinds whose nodes carry text instead of children. -/
def isToken : Kind → Bool
  | plainText | endOfFile | identifier | keyword | modifier | literal | punctuation => true
  | _ => false

/-- Declarations that begin with annotations and modifiers of their own. -/
def isDeclaration : Kind → Bool
  | package | classDecl | methodDecl | variableDecl | parameter | enumValue => true
  | _ => false

end Kind

end Verbatim
