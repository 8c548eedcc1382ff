import TypedSfc.Span

/-!
# Script trees

What the generators read off a script: which names stand where, what binds them, and the calls, objects and patterns that macros are
recognised by. A construct that matters only by what is inside it keeps its parts, in the order in which they are to be visited.
-/

namespace TypedSfc

namespace Script

/-- A name at its place. Its range is as long as the name, also when the source spells it with escapes. -/
structure Ident where
  name : String
  start : Nat
  deriving DecidableEq, Repr, Inhabited

/-- Where the name stands. -/
def Ident.range (i : Ident) : Span := ⟨i.start, i.start + i.name.utf8ByteSize⟩

/-- How variables are declared. -/
inductive VarKind where
  /-- With `var`: they belong to the whole body around, not only to the block. -/
  | hoisted
  /-- With `let` or `const`. -/
  | lexical
  /-- With `using`. -/
  | disposed
  deriving DecidableEq, Repr, Inhabited

/-- What a scope of names is. -/
inductive ScopeKind where
  /-- The parameters of a function and what stands in it. -/
  | function
  /-- A body, to which the hoisted variables in its blocks belong. -/
  | body
  | block
  deriving DecidableEq, Repr, Inhabited

mutual

/-- An expression. -/
inductive Expr where
  | name (id : Ident)
  | string (span : Span)
  | bool (span : Span) (value : Bool)
  | array (span : Span) (elements : List Expr)
  | object (span : Span) (props : List Property)
  /-- A call; the places of its type arguments, and what stands in them. -/
  | call (span : Span) (callee : Expr) (typeArgs : List Span) (types : List Part) (args : List Expr)
  | spread (span : Span) (inner : Expr)
  /-- A member access; a computed key has parts. -/
  | member (span : Span) (object : Expr) (key : List Part)
  | paren (span : Span) (inner : Expr)
  /-- A value taken as a type. -/
  | cast (span : Span) (value : Expr) (type : List Part)
  | assign (span : Span) (target : Pat) (value : Expr)
  /-- An arrow function; the types of its type parameters stand outside its scope. -/
  | arrow (span : Span) (types : List Part) (params : List Pat) (body : List Part)
  | other (span : Span) (parts : List Part)

/-- What an object literal may hold. -/
inductive Property where
  /-- A name that stands for itself. -/
  | shorthand (id : Ident)
  /-- A name with a default, as in a pattern. -/
  | covered (id : Ident) (value : Expr)
  /-- A key, by its name if it is written as one, and its value. -/
  | pair (key : Option String) (computed : List Part) (value : Expr)
  | spread (inner : Expr)
  | other (parts : List Part)

/-- A pattern that binds names or is assigned to. -/
inductive Pat where
  | name (id : Ident) (typed : Option Span) (type : List Part)
  | array (span : Span) (elements : List Pat) (typed : Option Span) (type : List Part)
  | object (span : Span) (props : List Pat) (typed : Option Span) (type : List Part)
  /-- What stands under a key of an object pattern. -/
  | keyed (key : List Part) (value : Pat)
  | rest (span : Span) (inner : Pat) (typed : Option Span) (type : List Part)
  | default (span : Span) (inner : Pat) (value : Expr)
  /-- A place that is assigned to without a name being bound. -/
  | target (inner : Expr)

/-- A statement. -/
inductive Stmt where
  | expr (span : Span) (value : Expr)
  /-- Variables, each a part that declares or defines. -/
  | vars (span : Span) (kind : VarKind) (decls : List Part)
  | funcDecl (span : Span) (id : Ident) (body : List Part)
  | classDecl (span : Span) (id : Ident) (parts : List Part)
  | enumDecl (span : Span) (id : Ident) (parts : List Part)
  /-- A namespace, by the first part of its name; a module in quotes has no name. -/
  | namespaceDecl (span : Span) (id : Option Ident) (parts : List Part)
  /-- A statement that leaves with a value. -/
  | leave (span : Span) (value : Expr)
  | empty (span : Span)
  | other (span : Span) (parts : List Part)

/-- A part of a construct. -/
inductive Part where
  | expr (value : Expr)
  | pat (pattern : Pat)
  | stmt (statement : Stmt)
  /-- A declaration that is no statement of its own, as in the head of a loop or after `export`. -/
  | decl (statement : Stmt)
  /-- A variable without a value. -/
  | declare (span : Span) (pattern : Pat)
  /-- A variable and its value. -/
  | define (span : Span) (pattern : Pat) (value : Expr)
  /-- Parts in a scope of their own, in which the names of some patterns are bound from the start. -/
  | scope (kind : ScopeKind) (bound : List Pat) (parts : List Part)
  /-- Parts in a scope of the language that a walk does not take for one, and the names that are bound in it from the start: the cases of
  a `switch`, the body of a namespace, a function or a class under a name of its own, a signature with its parameters. -/
  | region (kind : ScopeKind) (names : List Ident) (parts : List Part)
  /-- Parts at which a walk for free names does not look: decorators, type parameters and the result of a function, and type parameters
  of a method in a type. Only in the latter (`isSearched`) calls are looked for. -/
  | aside (isSearched : Bool) (parts : List Part)

end

instance : Inhabited Expr := ⟨.other ⟨0, 0⟩ []⟩

instance : Inhabited Property := ⟨.other []⟩

instance : Inhabited Pat := ⟨.target default⟩

instance : Inhabited Stmt := ⟨.empty ⟨0, 0⟩⟩

instance : Inhabited Part := ⟨.expr default⟩

/-- The place of an expression. -/
def Expr.span : Expr → Span
  | name i => i.range
  | string s | bool s _ | array s _ | object s _ | call s _ _ _ _ | spread s _ | member s _ _ | paren s _ | cast s _ _
  | assign s _ _ | arrow s _ _ _ | other s _ => s

/-- The expression that is spread, or the expression itself. -/
def Expr.unspread : Expr → Expr
  | spread _ e => e
  | e => e

/-- The place of a pattern. -/
def Pat.span : Pat → Span
  | name i a _ => ⟨i.start, match a with
    | some s => s.stop
    | none => i.range.stop⟩
  | array s _ _ _ | object s _ _ _ | rest s _ _ _ | default s _ _ => s
  | keyed _ p => p.span
  | target e => e.span

/-- The place of a statement. -/
def Stmt.span : Stmt → Span
  | expr s _ | vars s _ _ | funcDecl s _ _ | classDecl s _ _ | enumDecl s _ _ | namespaceDecl s _ _ | leave s _ | empty s | other s _ => s

/-- What an import binds. -/
inductive ImportName where
  /-- The default export. -/
  | default (id : Ident)
  /-- The whole module. -/
  | module (id : Ident)
  /-- An export by its name; whether only its type is imported, and whether that name is the default one. -/
  | named (id : Ident) (typeOnly : Bool) (isDefault : Bool)
  deriving DecidableEq, Repr, Inhabited

/-- A top-level item of a module. -/
inductive Item where
  | stmt (s : Stmt)
  /-- An import and the place of the module name, quotes included. -/
  | imports (span : Span) (typeOnly : Bool) (names : List ImportName) (source : Span) (parts : List Part)
  /-- An expression exported as the default. -/
  | exportValue (span : Span) (value : Expr)
  /-- A declaration exported as the default, with its own place and its name, if it has one. -/
  | exportDefault (span : Span) (declaration : Span) (id : Option Ident) (parts : List Part)
  /-- Any other export. -/
  | exports (span : Span) (parts : List Part)
  /-- A name for another module or for a member of a namespace. -/
  | importEquals (span : Span) (typeOnly : Bool) (isExported : Bool) (id : Ident)
  /-- An item that is neither a statement nor an import or export of the language itself. -/
  | other (span : Span) (parts : List Part)
  deriving Inhabited

/-- The place of an item. -/
def Item.span : Item → Span
  | stmt s => s.span
  | imports s _ _ _ _ | exportValue s _ | exportDefault s _ _ _ | exports s _ | importEquals s _ _ _ | other s _ => s

end Script

end TypedSfc
