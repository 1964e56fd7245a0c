import Verbatim.Java.Grammar

/-! The grammar of source files: packages, imports and declarations down to fields, methods,
parameters and types. Statements and expressions are runs of tokens, grouped by their brackets. -/

namespace Verbatim.Java

inductive Rule where
  | compilationUnit
  | topLevel
  | package
  | importDecl
  | importName
  | classDecl
  | classKeyword
  | supertypes
  | classBody
  | enumBody
  | enumValues
  | enumValue
  | member
  | methodDecl
  | methodBody
  | fieldDecl
  | declarator
  | initializer
  | modifiers
  | annotationUse
  | parameters
  | parameterList
  | parameter
  | throws
  | defaultValue
  | typeRef
  | typeBase
  | dimensions
  | qualifiedName
  | typeArguments
  | typeArgument
  | typeParameters
  | typeParameter
  | typeBound
  | block
  | blockItem
  | statementStart
  | statementRest
  | statementContinues
  | expression
  | expressionItem
  | group
  | parenGroup
  | groupItem
  deriving DecidableEq, Repr

/-- The value behind the parameters of an annotation's method. -/
def defaultValueKind : Kind := .custom ⟨"java", "default_value", some " "⟩

namespace Rule

def every : List Rule :=
  [compilationUnit, topLevel, package, importDecl, importName, classDecl, classKeyword,
    supertypes, classBody, enumBody, enumValues, enumValue, member, methodDecl, methodBody,
    fieldDecl, declarator, initializer, modifiers, annotationUse, parameters, parameterList,
    parameter, throws, defaultValue, typeRef, typeBase, dimensions, qualifiedName, typeArguments,
    typeArgument, typeParameters, typeParameter, typeBound, block, blockItem, statementStart,
    statementRest, statementContinues, expression, expressionItem, group, parenGroup, groupItem]

theorem mem_every (name : Rule) : name ∈ every := by
  cases name <;> decide

/-- What can be decided for each rule can be decided for all of them. -/
instance {property : Rule → Prop} [DecidablePred property] : Decidable (∀ name, property name) :=
  decidable_of_iff (∀ name ∈ every, property name)
    ⟨fun all name => all name (mem_every name), fun all name _ => all name⟩

open Grammar (keyword punctuation identifier separated enclosed atLeastOnce)

/-! Rules by name, without a node of their own. -/

abbrev Body := Grammar Rule

def call (name : Rule) : Body := .rule name

def open? (name : Rule) : Body := .optional (.rule name)

def all (name : Rule) : Body := .many (.rule name)

def semicolon : Body := punctuation ";"

/-- A name with further names behind dots. -/
def dotted : Body := identifier >> .many (punctuation "." >> identifier)

/-- Brackets around group items, as one node. -/
def bracketed (opening closing : String) : Body :=
  .branch .group (enclosed opening closing (all groupItem))

def body : Rule → Body
  /- Files. -/
  | compilationUnit =>
    .branch .sourceFile
      (open? package >> all importDecl >> all topLevel >> .token .endOfText)
  | topLevel => call classDecl <|> semicolon
  | package =>
    .branch .package (all annotationUse >> keyword "package" >> call qualifiedName >> semicolon)
  | importDecl =>
    .branch .importDecl
      (keyword "import" >> .optional (keyword "static") >> call importName >> semicolon)
  | importName =>
    .branch .qualifiedName (dotted >> .optional (punctuation "." >> punctuation "*"))
  /- Type declarations. -/
  | classDecl =>
    .branch .classDecl
      (call modifiers >> keyword "enum" >> identifier >> all supertypes >> call enumBody) <|>
    .branch .classDecl
      (call modifiers >> call classKeyword >> identifier >> open? typeParameters >>
        all supertypes >> call classBody)
  | classKeyword =>
    keyword "class" <|> keyword "interface" <|> punctuation "@" >> keyword "interface"
  | supertypes =>
    (keyword "extends" <|> keyword "implements" <|> keyword "permits") >>
      separated "," (call typeRef)
  | classBody => .branch .block (enclosed "\x7b" "\x7d" (all member))
  | enumBody =>
    .branch .block
      (enclosed "\x7b" "\x7d" (open? enumValues >> .optional semicolon >> all member))
  | enumValues => separated "," (call enumValue) >> .optional (punctuation ",")
  | enumValue =>
    .branch .enumValue (all annotationUse >> identifier >> open? parenGroup >> open? classBody)
  /- Members. -/
  | member =>
    call classDecl <|> call methodDecl <|> call fieldDecl <|> call initializer <|> semicolon
  | methodDecl =>
    .branch .methodDecl
      (call modifiers >> open? typeParameters >>
        .optional (call typeRef >> .ahead identifier) >> identifier >> call parameters >>
        call dimensions >> open? throws >> open? defaultValue >> call methodBody)
  | methodBody => call block <|> semicolon
  | fieldDecl =>
    .branch .variableDecl
      (call modifiers >> call typeRef >> separated "," (call declarator) >> semicolon)
  | declarator =>
    .branch .declarator
      (identifier >> call dimensions >> .optional (punctuation "=" >> call expression))
  /- A block, marked as static by a word in front of it. -/
  | initializer => .branch .statement (keyword "static" >> call block) <|> call block
  | modifiers => .many (call annotationUse <|> .token .modifier)
  | annotationUse =>
    .branch .annotationUse (punctuation "@" >> call qualifiedName >> open? parenGroup)
  /- Signatures and types. -/
  | parameters => .branch .parameters (enclosed "(" ")" (open? parameterList))
  | parameterList => separated "," (call parameter)
  | parameter =>
    .branch .parameter
      (call modifiers >> call typeRef >> .optional (punctuation "...") >> identifier >>
        call dimensions)
  | throws => .branch .throws (keyword "throws" >> separated "," (call typeRef))
  | defaultValue => .branch defaultValueKind (keyword "default" >> call expression)
  | typeRef => .branch .typeRef (call typeBase >> call dimensions)
  | typeBase => .token .primitive <|> call qualifiedName >> open? typeArguments
  | dimensions => .many (punctuation "[" >> punctuation "]")
  | qualifiedName => .branch .qualifiedName dotted
  | typeArguments =>
    .branch .typeArguments
      (enclosed "<" ">" (open? typeArgument >> .many (punctuation "," >> call typeArgument)))
  | typeArgument =>
    punctuation "?" >> .optional ((keyword "extends" <|> keyword "super") >> call typeRef) <|>
    call typeRef
  | typeParameters =>
    .branch .typeParameters (enclosed "<" ">" (separated "," (call typeParameter)))
  | typeParameter => identifier >> open? typeBound
  | typeBound => keyword "extends" >> separated "&" (call typeRef)
  /- Bodies. A statement ends with a semicolon, or with a block that nothing continues. A block
  that could stand alone is never the start of a statement. -/
  | block => .branch .block (enclosed "\x7b" "\x7d" (all blockItem))
  | blockItem => call block <|> .branch .statement (call statementStart)
  | statementStart => semicolon <|> (call group <|> .token .plain) >> call statementRest
  | statementRest =>
    semicolon <|>
    .ifFits (call block) (.notAhead (call statementContinues) <|> call statementRest)
      ((call group <|> .token .plain) >> call statementRest)
  | statementContinues =>
    keyword "else" <|> keyword "catch" <|> keyword "finally" <|> keyword "while" <|>
    semicolon <|> punctuation "," <|> punctuation "." <|> punctuation ")"
  | expression => .branch .expression (atLeastOnce (call expressionItem))
  | expressionItem =>
    keyword "new" >> call typeRef <|>
    call group <|>
    .notAhead (punctuation ",") >> .notAhead semicolon >> .token .plain
  | group => call parenGroup <|> bracketed "[" "]" <|> bracketed "\x7b" "\x7d"
  | parenGroup => bracketed "(" ")"
  | groupItem => call group <|> .token .plain

end Rule

end Verbatim.Java
