import TypedSfc.Generate.Scene

/-!
# The component

A setup script ends in a component that has the properties, events and exposed members which the macros declare, as types where the
version of the framework allows it and as values otherwise.
-/

namespace TypedSfc

namespace Generate

namespace Scene

/-- The types of the events, for versions that take types; not when they are declared by a value. -/
def eventTypes (s : Scene) (q : SetupScript) : List String :=
  if s.options.targets 3.5 && !(q.setup.emits.any fun e => e.call.arg.isSome) then
    (if q.hasModels then [name "ModelEmit"] else []) ++
    if q.setup.emits.any fun e => e.call.typeArg.isSome then [name "Emit"] else []
  else []

/-- An event option from a function that emits. -/
def eventOption (function : String) : String := "\x7b\x7d as " ++ name "NormalizeEmits" ++ "<typeof " ++ function ++ ">"

/-- The events as values. -/
def eventValues (q : SetupScript) : List String :=
  (if q.hasModels then [eventOption (name "modelEmit")] else []) ++
  match q.setup.emits.filter fun e => e.call.arg.isSome with
  | some e => [eventOption (e.name.getD (name "emit"))]
  | none => []

/-- The option of the events, if there are any. -/
def eventsOption (s : Scene) (q : SetupScript) : List Piece :=
  if !(s.eventTypes q).isEmpty then [.text ("__typeEmits: \x7b\x7d as " ++ " & ".intercalate (s.eventTypes q) ++ ",\n")]
  else if !(eventValues q).isEmpty then [.text "emits: ", .merged (eventValues q), .text ",\n"]
  else []

/-- The type of the attributes that are handed on. Listeners of declared events are not among them. -/
def inheritedType (s : Scene) (q : SetupScript) : String :=
  if (s.eventsOption q).isEmpty then name "InheritedAttrs"
  else "Omit<" ++ name "InheritedAttrs" ++ ", keyof " ++ name "EmitProps" ++ ">"

/-- The types of the properties, for versions that take types; not when they are declared by a value. -/
def propertyTypes (s : Scene) (q : SetupScript) : List String :=
  if s.options.targets 3.5 && q.propsArg.isNone then
    (if s.hasType "InheritedAttrs" then ["\x7b\x7d as " ++ s.inheritedType q] else []) ++
    if q.hasPublicProps then ["\x7b\x7d as " ++ name "PublicProps"] else []
  else []

/-- Whether the declared properties are made a value from their type. -/
def hasPropertyValue (s : Scene) (q : SetupScript) : Bool := q.hasPublicProps && !s.options.targets 3.6

/-- The declared properties as a value that is made from their type, with their defaults. -/
def propertyValue (q : SetupScript) : String :=
  let options := HelperType.typePropsToOption.name ++ "<" ++ name "PublicProps" ++ ">"
  "\x7b\x7d as " ++
    if q.defaultsArg.isSome then HelperType.withDefaults.name ++ "<" ++ options ++ ", typeof " ++ name "defaults" ++ ">" else options

/-- Whether the properties are declared by a value: when they have defaults, or no types. -/
def takesValues (s : Scene) (q : SetupScript) : Bool := q.setup.withDefaults.isSome || (s.propertyTypes q).isEmpty

/-- The properties as values. -/
def propertyValues (s : Scene) (q : SetupScript) : List String :=
  if s.takesValues q then
    (if s.hasType "InheritedAttrs" then
      ["\x7b\x7d as " ++ HelperType.typePropsToOption.name ++ "<" ++ name "PickNotAny" ++ "<" ++ HelperType.omitIndexSignature.name ++
        "<" ++ s.inheritedType q ++ ">, \x7b\x7d>>"]
      else []) ++
    (if s.hasPropertyValue q then [propertyValue q] else []) ++
    (q.propsArg.map q.block.textAt).toList
  else []

/-- The helper types that the properties as values need. -/
def propertyHelpers (s : Scene) (q : SetupScript) : List HelperType :=
  if s.takesValues q then
    (if s.hasType "InheritedAttrs" then [.typePropsToOption, .omitIndexSignature] else []) ++
    if s.hasPropertyValue q then
      .typePropsToOption :: if q.defaultsArg.isSome then [.withDefaults] else []
    else []
  else []

/-- The options of the properties. -/
def propertiesOption (s : Scene) (q : SetupScript) : List Piece :=
  let types := s.propertyTypes q
  let values := s.propertyValues q
  (s.propertyHelpers q).map .needs ++
  (if types.isEmpty then []
    else
      (if s.options.targets 3.6 && q.defaultsArg.isSome then [Piece.text ("__defaults: " ++ name "defaults" ++ ",\n")] else []) ++
      [.text "__typeProps: ", .merged types, .text ",\n"]) ++
  if values.isEmpty then [] else [.text "props: ", .merged values, .text ",\n"]

/-- An option for a type that the template shows of the component, if a switch asks for it and the version takes it. -/
def shownOption (s : Scene) (flag : Options.Flag) (option key : String) : List Piece :=
  if s.options.targets 3.5 && s.options.flag flag && s.hasType key then
    [.text (option ++ ": \x7b\x7d as " ++ name key ++ ",\n")]
  else []

/-- The component of a setup script. -/
def component (s : Scene) (q : SetupScript) : List Piece :=
  [.text ("(await import(\"" ++ s.options.lib ++ "\")).defineComponent(\x7b\n")] ++
  (if q.setup.expose.isSome then [.text ("setup: () => " ++ name "exposed" ++ ",\n")] else []) ++
  s.eventsOption q ++
  s.propertiesOption q ++
  s.shownOption .inferComponentDollarRefs "__typeRefs" "TemplateRefs" ++
  s.shownOption .inferComponentDollarEl "__typeEl" "RootEl" ++
  [.text "\x7d)"]

end Scene

end Generate

end TypedSfc
