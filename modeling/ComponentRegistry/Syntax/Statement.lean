import ComponentRegistry.Syntax.Token

/-! # Import and export statements

The statements that connect a module with others, as they are written at its top level.
-/

namespace ComponentRegistry

/-- One entry of an import or export clause: what it is called where it comes from, and what it is
called where it goes. A default import comes from `default`, a namespace import from `*`. -/
structure Specifier where
  /-- The name on the side it comes from. -/
  imported : String
  /-- The name on the side it goes to. -/
  bound : String
  /-- Whether only its type is meant. -/
  typeOnly : Bool
  deriving Repr, DecidableEq

/-- The module that a statement names. -/
structure ModuleSource where
  /-- The name of the module. -/
  path : String
  /-- The name as it is written, with its quotes. -/
  written : String
  deriving Repr, DecidableEq

/-- The module source that a string token writes. -/
def ModuleSource.ofToken (t : Token) : ModuleSource := ⟨t.value, t.lexeme⟩

/-- The stretch of text that a statement takes up. -/
structure Span where
  /-- Where its first token begins. -/
  start : Position
  /-- The offset just past its last token. -/
  stop : Nat
  deriving Repr, DecidableEq

/-- A statement that imports from a module. -/
structure ImportStatement where
  /-- The module it imports from. -/
  source : ModuleSource
  /-- What it binds; nothing when it is imported for its effects. -/
  specifiers : List Specifier
  /-- Whether the whole statement imports types only. -/
  typeOnly : Bool
  /-- Whether it ends in a semicolon. -/
  terminated : Bool
  /-- Where it stands. -/
  span : Span
  deriving Repr, DecidableEq

/-- The names that an import binds, in order. -/
def ImportStatement.boundNames (s : ImportStatement) : List String :=
  s.specifiers.map Specifier.bound

/-- What an exported declaration declares. -/
inductive DeclarationKind where
  | function
  | classType
  | enumeration
  | constBinding
  | letBinding
  | varBinding
  | interface
  | typeAlias
  | namespaceBlock
  | importAlias
  deriving Repr, DecidableEq

/-- The word for a kind of declaration. -/
def DeclarationKind.word : DeclarationKind → String
  | function => "function"
  | classType => "class"
  | enumeration => "enum"
  | constBinding => "const"
  | letBinding => "let"
  | varBinding => "var"
  | interface => "interface"
  | typeAlias => "type"
  | namespaceBlock => "namespace"
  | importAlias => "import"

/-- Kinds that leave nothing behind when the types are erased. -/
def DeclarationKind.isErased : DeclarationKind → Bool
  | interface | typeAlias => true
  | _ => false

/-- The shapes of export statements. -/
inductive ExportForm where
  /-- A declaration with `export` in front. An ambient one declares what exists elsewhere. -/
  | declaration (declared : DeclarationKind) (keyword : Token) (async : Option Token)
      (bound : List String) (ambient : Bool)
  /-- An interface as the default export. -/
  | defaultInterface
  /-- The module's name among the global ones. -/
  | globalName
  /-- A function or class as the default export, named or not. -/
  | defaultDeclaration (declared : DeclarationKind) (default : Token) (async : Option Token)
      (keyword : Token) (name : Option String)
  /-- A plain name as the default export. -/
  | defaultName (default : Token) (name : String)
  /-- Any other expression as the default export; `export =` has no `default` word. -/
  | defaultExpression (default : Option Token) (async : Option Token)
  /-- A clause of names, possibly of another module. -/
  | list (specifiers : List Specifier) (source : Option ModuleSource) (typeOnly : Bool)
  /-- Everything that another module exports, under a name or not. -/
  | everything (name : Option String) (source : ModuleSource) (typeOnly : Bool)
  deriving Repr, DecidableEq

/-- A statement that exports. -/
structure ExportStatement where
  /-- Its shape and what it says. -/
  form : ExportForm
  /-- Whether a semicolon that belongs to it ends it. -/
  terminated : Bool
  /-- Where it stands. -/
  span : Span
  deriving Repr, DecidableEq

namespace ExportForm

/-- The name for a default export that has none of its own. -/
def defaultWord : String := "default"

/-- Whether only types are exported. -/
def typeOnly : ExportForm → Bool
  | declaration declared _ _ _ ambient => ambient || declared.isErased
  | defaultInterface | globalName => true
  | list _ _ typeOnly | everything _ _ typeOnly => typeOnly
  | defaultDeclaration .. | defaultName .. | defaultExpression .. => false

/-- The specifiers of a clause that are not type-only. -/
def runtimeSpecifiers : ExportForm → List Specifier
  | list specifiers _ _ => specifiers.filter fun s => !s.typeOnly
  | _ => []

/-- The names, other than the default, under which something exists at run time. -/
def names : ExportForm → List String
  | form@(declaration _ _ _ bound _) => if form.typeOnly then [] else bound
  | form@(list ..) => (form.runtimeSpecifiers.map Specifier.bound).filter (· != defaultWord)
  | everything name _ typeOnly => if typeOnly then [] else name.toList
  | defaultInterface | globalName | defaultDeclaration .. | defaultName .. | defaultExpression .. =>
    []

/-- The local name behind the default export; the last one of a clause that lists several. -/
def defaultExportName : ExportForm → Option String
  | defaultDeclaration _ _ _ _ name => some (name.getD defaultWord)
  | defaultName _ name => some name
  | defaultExpression .. => some defaultWord
  | form@(list ..) =>
    let renamed := form.runtimeSpecifiers.filter fun s => s.bound == defaultWord
    (renamed.map Specifier.imported).getLast?
  | declaration .. | defaultInterface | globalName | everything .. => none

/-- Whether there is a default export in it. -/
def isDefault (form : ExportForm) : Bool := form.defaultExportName.isSome

/-- The module that is exported from. -/
def source : ExportForm → Option ModuleSource
  | list _ source _ => source
  | everything _ source _ => some source
  | _ => none

/-- The entries of a clause. -/
def specifiers : ExportForm → List Specifier
  | list specifiers _ _ => specifiers
  | _ => []

/-- What is declared. -/
def declared? : ExportForm → Option DeclarationKind
  | declaration declared .. | defaultDeclaration declared .. => some declared
  | defaultInterface => some .interface
  | _ => none

/-- The `default` word. -/
def defaultToken : ExportForm → Option Token
  | defaultDeclaration _ default .. => some default
  | defaultName default _ => some default
  | defaultExpression default _ => default
  | _ => none

/-- An `async` word that modifies the exported function. -/
def asyncToken : ExportForm → Option Token
  | declaration _ _ async _ _ => async
  | defaultDeclaration _ _ async _ _ => async
  | defaultExpression _ async => async
  | _ => none

/-- The word that begins the declaration. -/
def declarationToken : ExportForm → Option Token
  | declaration _ keyword .. => some keyword
  | defaultDeclaration _ _ _ keyword _ => some keyword
  | _ => none

/-- The word for a shape in listings. -/
def kindName : ExportForm → String
  | declaration .. | defaultInterface | globalName => "declaration"
  | defaultDeclaration .. => "default_declaration"
  | defaultName .. => "default_name"
  | defaultExpression .. => "default_expression"
  | list .. => "named_list"
  | everything .. => "namespace"

end ExportForm

namespace ExportStatement

/-- The names, other than the default, under which something exists at run time. -/
def names (s : ExportStatement) : List String := s.form.names

/-- Whether only types are exported. -/
def typeOnly (s : ExportStatement) : Bool := s.form.typeOnly

/-- The local name behind the default export. -/
def defaultExportName (s : ExportStatement) : Option String := s.form.defaultExportName

/-- The module that is exported from. -/
def source (s : ExportStatement) : Option ModuleSource := s.form.source

end ExportStatement

/-- The import and export statements of a module, each in the order of the text. -/
structure Outline where
  /-- The imports. -/
  imports : List ImportStatement
  /-- The exports. -/
  exports : List ExportStatement
  deriving Repr, DecidableEq

end ComponentRegistry
