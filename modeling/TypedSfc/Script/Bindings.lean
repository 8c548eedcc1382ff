import TypedSfc.Script.Module
import TypedSfc.Text.Quoted

/-!
# Bindings

The names that a script binds at its top level. A default import from a component file is a component; all other names are values.
-/

namespace TypedSfc

namespace Script

/-- A name that a pattern binds, and whether it takes the rest. -/
structure Bound where
  id : Ident
  isRest : Bool
  deriving DecidableEq, Repr, Inhabited

mutual

/-- The names that a pattern binds, by their places; `isRest` tells how the pattern itself stands. -/
def Pat.boundAs (isRest : Bool) : Pat → List Bound
  | .name i _ _ => [⟨i, isRest⟩]
  | .array _ ps _ _ | .object _ ps _ _ => boundAll ps
  | .keyed _ p => p.boundAs false
  | .rest _ p _ _ => p.boundAs true
  | .default _ p _ => p.boundAs isRest
  | .target _ => []

/-- The names that patterns bind. -/
def boundAll : List Pat → List Bound
  | [] => []
  | p :: ps => p.boundAs false ++ boundAll ps

end

/-- The names that a pattern binds, by their places. -/
def Pat.bound (p : Pat) : List Bound := p.boundAs false

/-- The names that a variable declaration binds. -/
def Part.declared : Part → List Bound
  | .declare _ p | .define _ p _ => p.bound
  | _ => []

/-- The variables that a statement declares with another word than `using`. -/
def Stmt.variables : Stmt → List Part
  | .vars _ .disposed _ => []
  | .vars _ _ ds => ds
  | _ => []

/-- The top-level names of a script. -/
structure Bindings where
  values : List Ident
  /-- Imports of components. -/
  components : List Ident
  deriving DecidableEq, Repr, Inhabited

namespace Bindings

/-- No names. -/
def empty : Bindings := ⟨[], []⟩

/-- One value. -/
def value (i : Ident) : Bindings := ⟨[i], []⟩

/-- Bindings after others. -/
def append (a b : Bindings) : Bindings := ⟨a.values ++ b.values, a.components ++ b.components⟩

/-- What a statement binds at the top level. -/
def ofStmt : Stmt → Bindings
  | .funcDecl _ i _ | .classDecl _ i _ | .enumDecl _ i _ => value i
  | t => ⟨t.variables.flatMap fun d => d.declared.map (·.id), []⟩

/-- What an import binds from a file, which is a component or not. -/
def ofImport (isComponent : Bool) : ImportName → Bindings
  | .default i => if isComponent then ⟨[], [i]⟩ else value i
  | .module i => value i
  | .named _ true _ => empty
  | .named i false isDefault => if isComponent && isDefault then ⟨[], [i]⟩ else value i

/-- Whether a text ends in one of some extensions. -/
def endsInOne (extensions : List String) (text : String) : Bool :=
  extensions.any fun e => e.toList.isSuffixOf text.toList

/-- What an item binds. Exports do not count, and imports of types only neither. -/
def ofItem (content : List Char) (extensions : List String) : Item → Bindings
  | .stmt s => ofStmt s
  | .imports _ true _ _ _ => empty
  | .imports _ false names source _ =>
    let file := Text.unquote (String.ofList (Text.between source.start source.stop content))
    (names.map (ofImport (endsInOne extensions file))).foldl append empty
  | _ => empty

end Bindings

/-- The top-level names of a script; a file is a component if its name ends in one of the extensions. -/
def Module.bindings (m : Module) (content : String) (extensions : List String) : Bindings :=
  ((m.items.getD []).map (Bindings.ofItem content.toList extensions)).foldl Bindings.append Bindings.empty

end Script

end TypedSfc
