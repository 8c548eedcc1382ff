import TypedSfc.Generate.Scene

/-!
# What a template reads from

Before the code of a template stand the values and types that it reads: the component with all its members, the components and
directives that it may use, and the elements of the platform.
-/

namespace TypedSfc

namespace Generate

namespace Scene

/-- The type of the members that the setup script shows, if it shows any. -/
def exposedType (s : Scene) : List String := if s.exposed.isEmpty then [] else [name "SetupExposed"]

/-- Declares the type of the members that the setup script shows. -/
def exposedDeclaration (s : Scene) : List Piece :=
  if s.exposed.isEmpty then []
  else
    [.declares (name "SetupExposed"),
      .text ("type " ++ name "SetupExposed" ++ " = " ++ s.ofLib "ShallowUnwrapRef<\x7b\n" ++
        String.join (s.exposed.map fun n => n ++ ": typeof " ++ n ++ ";\n") ++ "\x7d>;\n")]

/-- Several types as one, which has nothing in it if there are none. -/
def intersection (types : List String) : String := if types.isEmpty then "\x7b\x7d" else " & ".intercalate types

/-- A value of a type. -/
def valueOf (type : String) : String := "\x7b\x7d as " ++ type

/-- The types of the properties of the component. -/
def propTypes (s : Scene) : List String :=
  (match s.setup.bind (·.setup.props) with
    | some p => ["typeof " ++ p.assigned.name.getD (name "props")]
    | none => []) ++
  (if s.setup.any (·.hasModels) then [name "ModelProps"] else []) ++
  if s.emitTypes.isEmpty then [] else [name "EmitProps"]

/-- What the component is made of. `self` is the variable that holds its options, if there is one. -/
def componentOperands (s : Scene) (self : Option String) : List String :=
  let emits := " & ".intercalate s.emitTypes
  let props := " & ".intercalate s.propTypes
  [match self with
    | some v => valueOf ("InstanceType<" ++ name "PickNotAny" ++ "<typeof " ++ v ++ ", new () => \x7b\x7d>>")
    | none => valueOf (s.ofLib "ComponentPublicInstance")] ++
  (if s.hasType "StyleModules" then [valueOf (name "StyleModules")] else []) ++
  (if s.emitTypes.isEmpty then [] else [valueOf ("\x7b $emit: " ++ emits ++ " \x7d")]) ++
  (if s.propTypes.isEmpty then [] else [valueOf ("\x7b $props: " ++ props ++ " \x7d"), valueOf props]) ++
  s.exposedType.map valueOf

/-- Declares the component. -/
def componentDeclaration (s : Scene) (self : Option String) : List Piece :=
  (if s.emitTypes.isEmpty then []
    else
      [.text ("type " ++ name "EmitProps" ++ " = " ++ name "EmitsToProps" ++ "<" ++ name "NormalizeEmits" ++ "<" ++
        " & ".intercalate s.emitTypes ++ ">>;\n")]) ++
  [.text ("const " ++ name "ctx" ++ " = "), .merged (s.componentOperands self), .text ";\n"]

/-- Declares a constant for an option of the component that is exported: the pieces, and whether there is such an option. -/
def optionDeclaration (s : Scene) (option : Script.ExportOptions → Option Span) (key : String) : List Piece × Bool :=
  match s.script.bind fun p => (p.options?.bind option).map fun a => (p, a) with
  | some (p, a) => ([.text ("const " ++ name key ++ " = "), p.part a, .text ";\n"], true)
  | none => ([], false)

/-- The type of the components of the platform; before version 3.5 the built-in ones are not among the global ones. -/
def globalComponents (s : Scene) : String :=
  s.ofLib "GlobalComponents" ++
    if s.options.targets 3.5 then ""
    else " & Pick<typeof import(\"" ++ s.options.lib ++
      "\"), \"Transition\" | \"TransitionGroup\" | \"KeepAlive\" | \"Suspense\" | \"Teleport\">"

/-- The type of the elements of the platform; before version 3.3 it is global. -/
def intrinsicElements (s : Scene) : String :=
  if s.options.targets 3.3 then "import(\"" ++ s.options.lib ++ "/jsx-runtime\").JSX.IntrinsicElements"
  else "globalThis.JSX.IntrinsicElements"

/-- Declares the components and the elements. -/
def componentsDeclaration (s : Scene) : List Piece :=
  let (pieces, isThere) := s.optionDeclaration (·.components) "componentsOption"
  let types := s.exposedType ++ if isThere then ["typeof " ++ name "componentsOption"] else []
  pieces ++
  [.text ("type " ++ name "LocalComponents" ++ " = " ++ intersection types ++ ";\n" ++
    "type " ++ name "GlobalComponents" ++ " = " ++ s.globalComponents ++ ";\n" ++
    "let " ++ name "intrinsics" ++ "!: " ++ s.intrinsicElements ++ ";\n")]

/-- Declares the directives. -/
def directivesDeclaration (s : Scene) : List Piece :=
  let (pieces, isThere) := s.optionDeclaration (·.directives) "directivesOption"
  let types := s.exposedType ++
    if isThere then [name "ResolveDirectives" ++ "<typeof " ++ name "directivesOption" ++ ">"] else []
  pieces ++
  [.text ("type " ++ name "LocalDirectives" ++ " = " ++ intersection types ++ ";\n" ++
    "let " ++ name "directives" ++ "!: " ++ name "LocalDirectives" ++ " & " ++ s.ofLib "GlobalDirectives" ++ ";\n")]

/-- The code of the template behind what it reads from. -/
def templateSection (s : Scene) (self : Option String) : List Piece :=
  s.exposedDeclaration ++ s.componentDeclaration self ++ s.componentsDeclaration ++ s.directivesDeclaration ++ [.template]

end Scene

end Generate

end TypedSfc
