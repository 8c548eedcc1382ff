import TypedSfc.Generate.Scene

/-!
# Generic components

A component with type parameters is a function with these parameters. Its setup is the last argument of the function, from whose
result the types of the others are taken.
-/

namespace TypedSfc

namespace Generate

namespace Scene

/-- The type parameters of a component. A comma at the end keeps them from being taken for markup. -/
def typeParameters : BlockAttr → List Piece
  | .flag => []
  | .value t offset _ =>
    [.text "<", .mapped t SourceId.document offset] ++ (if t.toList.getLast? == some ',' then [] else [.text ","]) ++ [.text ">"]

/-- What the setup comes to. -/
def setupResult : String := "NonNullable<Awaited<typeof " ++ name "setup" ++ ">>"

/-- The start of the function, up to the body of the setup. -/
def genericHead (parameters : BlockAttr) : List Piece :=
  [.text "("] ++ typeParameters parameters ++
  [.needs .prettifyLocal,
    .text ("(\n" ++
      "  " ++ name "props" ++ ": " ++ setupResult ++ "[\"props\"],\n" ++
      "  " ++ name "ctx" ++ "?: " ++ HelperType.prettifyLocal.name ++ "<Pick<" ++ setupResult ++
        ", \"attrs\" | \"emit\" | \"slots\">>,\n" ++
      "  " ++ name "exposed" ++ "?: " ++ setupResult ++ "[\"expose\"],\n" ++
      "  " ++ name "setup" ++ " = (async () => \x7b\n")]

/-- The type of properties that are declared by a value. -/
def extractedProps (s : Scene) : String :=
  s.ofLib (if s.options.targets 3.3 then "ExtractPublicPropTypes" else "ExtractPropTypes") ++ "<typeof " ++ name "propsOption" ++ ">"

/-- The types of the properties that the function takes. -/
def genericProps (s : Scene) (q : SetupScript) : List String :=
  (if q.hasPublicProps then [name "PublicProps"] else []) ++
  (if q.propsArg.isSome then [s.extractedProps] else []) ++
  (if q.setup.emits.isSome || q.hasModels then [name "EmitProps"] else []) ++
  if s.hasType "InheritedAttrs" then [name "InheritedAttrs"] else []

/-- The properties that any component takes. -/
def commonProps (s : Scene) : String :=
  if s.options.targets 3.4 then s.ofLib "PublicProps"
  else " & ".intercalate (["VNodeProps", "AllowedComponentProps", "ComponentCustomProps"].map s.ofLib)

/-- The members that the component exposes. -/
def genericExposed (s : Scene) (q : SetupScript) : String :=
  let shown := fun (flag : Options.Flag) (member key : String) =>
    if s.options.flag flag && s.hasType key then " & \x7b " ++ member ++ ": " ++ name key ++ " \x7d" else ""
  (if q.setup.expose.isSome then s.ofLib "ShallowUnwrapRef<typeof " ++ name "exposed" ++ ">" else "\x7b\x7d") ++
  shown .inferComponentDollarRefs "$refs" "TemplateRefs" ++
  shown .inferComponentDollarEl "$el" "RootEl"

/-- The end of the function, behind the body of the setup. -/
def genericTail (s : Scene) (q : SetupScript) : List Piece :=
  let own := s.genericProps q
  (match q.propsArg with
    | some a => [.text ("const " ++ name "propsOption" ++ " = "), q.part a, .text ";\n"]
    | none => []) ++
  [.text ("return \x7b\x7d as \x7b\n" ++
    "  props: " ++ s.commonProps ++
      (if own.isEmpty then "" else " & " ++ HelperType.prettifyLocal.name ++ "<" ++ " & ".intercalate own ++ ">") ++
      " & (typeof globalThis extends \x7b __VLS_PROPS_FALLBACK: infer P \x7d ? P : \x7b\x7d);\n" ++
    "  expose: (exposed: " ++ s.genericExposed q ++ ") => void;\n" ++
    "  attrs: any;\n" ++
    "  slots: " ++ (if s.hasSlots then name "Slots" else "\x7b\x7d") ++ ";\n" ++
    "  emit: " ++ (if s.emitTypes.isEmpty then "\x7b\x7d" else " & ".intercalate s.emitTypes) ++ ";\n" ++
    "\x7d;\n\x7d)(),\n" ++
    ") => (\x7b\x7d as " ++ s.ofLib "VNode & \x7b __ctx?: Awaited<typeof " ++ name "setup" ++ "> \x7d));\n")]

end Scene

end Generate

end TypedSfc
