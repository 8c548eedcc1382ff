import TypedSfc.Script.Leading

/-!
# The default export

A component may be the default export of its script: an object of options, or a call that is given one.
-/

namespace TypedSfc

namespace Script

/-- The properties of an object that have a value under a name written as such. -/
def Property.named? : Property → Option (String × Expr)
  | .pair (some key) _ value => some (key, value)
  | _ => none

/-- The options in the object that is exported. -/
structure ExportOptions where
  /-- Whether the object itself is exported. -/
  isObject : Bool
  /-- What is exported, without parentheses and types around it. -/
  expression : Span
  /-- The object. -/
  object : Span
  components : Option Span
  directives : Option Span
  /-- The string that is the name, with its quotes. -/
  name : Option Span
  inheritAttrs : Option Bool
  deriving DecidableEq, Repr, Inhabited

/-- A default export. -/
structure DefaultExport where
  /-- The statement, with the block comment directly before it. -/
  range : Span
  isObject : Bool
  expression : Span
  options : Option ExportOptions
  deriving DecidableEq, Repr, Inhabited

/-- An expression without parentheses and types around it. -/
def Expr.bare : Expr → Expr
  | .cast _ e _ => e.bare
  | .paren _ e => e.bare
  | e => e

/-- The object that an expression is, or that is its first argument: its place and properties. -/
def Expr.optionsObject? : Expr → Option (Span × List Property)
  | .object s ps => some (s, ps)
  | .call _ _ _ _ (.object s ps :: _) => some (s, ps)
  | _ => none

/-- Whether an expression is an object literal. -/
def Expr.isObject : Expr → Bool
  | .object .. => true
  | _ => false

/-- Takes an option from a property; of two under one name the later counts. -/
def ExportOptions.take (o : ExportOptions) (p : String × Expr) : ExportOptions :=
  match p with
  | ("components", .object s _) => { o with components := some s }
  | ("directives", .object s _) => { o with directives := some s }
  | ("name", .string s) => { o with name := some s }
  | ("inheritAttrs", .bool _ b) => { o with inheritAttrs := some b }
  | _ => o

/-- The options that an exported expression gives. -/
def ExportOptions.ofExpr? (e : Expr) : Option ExportOptions :=
  let bare := e.bare
  bare.optionsObject?.map fun (s, ps) =>
    (ps.filterMap Property.named?).foldl take
      { isObject := bare.isObject, expression := bare.span, object := s, components := none, directives := none, name := none
        inheritAttrs := none }

/-- The place of an export with the block comment directly before it. -/
def Module.withComment (m : Module) (content : String) (span : Span) : Span :=
  match m.closestBlock content span.start with
  | some c => ⟨c.start, span.stop⟩
  | none => span

/-- The default export that an item is. -/
def Module.defaultOf? (m : Module) (content : String) : Item → Option DefaultExport
  | .exportValue s e => some ⟨m.withComment content s, e.isObject, e.span, ExportOptions.ofExpr? e⟩
  | .exportDefault s d _ _ => some ⟨m.withComment content s, false, d, none⟩
  | _ => none

/-- The default export of a script. -/
def Module.defaultExport? (m : Module) (content : String) : Option DefaultExport :=
  (m.items.getD []).findSome? (m.defaultOf? content)

end Script

end TypedSfc
