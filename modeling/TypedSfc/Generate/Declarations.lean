import TypedSfc.Generate.Scene
import TypedSfc.Text.Casing
import TypedSfc.Text.Quoted

/-!
# Declarations behind a setup script

Behind the script stand the declarations of the macros, of the models with their properties and events, and of the properties that the
component shows to its users.
-/

namespace TypedSfc

namespace Generate

namespace Scene

/-- Declares the macros as values of the library, but for names that the component itself shows. -/
def macroDeclarations (s : Scene) : List Piece :=
  if s.options.targets 3.3 then
    let names := (s.options.macros.entries.map (·.1)).filter fun n => !s.exposed.contains n
    [.text ("// @ts-ignore\ndeclare const \x7b " ++ String.join (names.map (· ++ ", ")) ++ "\x7d: typeof import(\"" ++ s.options.lib ++
      "\");\n")]
  else []

end Scene

end Generate

namespace SetupScript

/-- The property that a model is bound to. -/
def modelName (q : SetupScript) (m : Script.Model) : String :=
  match m.name with
  | some n => Text.camelize (Text.unquote (q.block.textAt n))
  | none => "modelValue"

/-- The type of a model: the one stated, or else what the variable or the default value has. -/
def modelType (q : SetupScript) (m : Script.Model) : String :=
  match m.typeArg, m.runtimeType, m.localName with
  | some t, _, _ => q.block.textAt t
  | none, some _, some v => "typeof " ++ q.block.textAt v ++ "[\"value\"]"
  | none, _, _ =>
    if m.defaultValue.isSome then "typeof " ++ Names.ofKey "defaultModels" ++ "[\"" ++ q.modelName m ++ "\"]" else "any"

/-- The default value of a model under its name. -/
def modelDefault (q : SetupScript) (m : Script.Model) : String :=
  match m.defaultValue with
  | some v => "\"" ++ q.modelName m ++ "\": " ++ q.block.textAt v ++ ",\n"
  | none => ""

/-- The properties of a model: the value with its comment, and the modifiers if they have a type. -/
def modelProps (q : SetupScript) (m : Script.Model) : String :=
  let comment := match m.comment with
    | some c => q.block.textAt c ++ "\n"
    | none => ""
  let key := match m.name with
    | some n => Text.camelize (q.block.textAt n)
    | none => q.modelName m
  let modifiers := match m.modifierType with
    | some t =>
      let owner := if q.modelName m = "modelValue" then "model" else q.modelName m
      "\"" ++ owner ++ "Modifiers\"?: Partial<Record<" ++ q.block.textAt t ++ ", true>>;\n"
    | none => ""
  comment ++ key ++ (if m.required then ": " else "?: ") ++ q.modelType m ++ ";\n" ++ modifiers

/-- The event that a model emits. -/
def modelEvent (q : SetupScript) (m : Script.Model) : String :=
  let missing := if !m.required && m.defaultValue.isNone then " | undefined" else ""
  "\"update:" ++ q.modelName m ++ "\": [value: " ++ q.modelType m ++ missing ++ "];\n"

/-- Declares the models, if there are any. -/
def modelDeclarations (q : SetupScript) : List Generate.Piece :=
  if q.hasModels then
    let each := fun (f : Script.Model → String) => String.join (q.setup.models.map f)
    let defaults := each q.modelDefault
    [.text ((if defaults.isEmpty then "" else "const " ++ Names.ofKey "defaultModels" ++ " = \x7b\n" ++ defaults ++ "\x7d;\n") ++
      "type " ++ Names.ofKey "ModelProps" ++ " = \x7b\n" ++ each q.modelProps ++ "\x7d;\n" ++
      "type " ++ Names.ofKey "ModelEmit" ++ " = \x7b\n" ++ each q.modelEvent ++ "\x7d;\n" ++
      "const " ++ Names.ofKey "modelEmit" ++ " = defineEmits<" ++ Names.ofKey "ModelEmit" ++ ">();\n")]
  else []

/-- Declares the defaults of properties that have a type. -/
def defaultsDeclaration (q : SetupScript) : List Generate.Piece :=
  match q.defaultsArg.filter fun _ => q.propsType.isSome with
  | some a => [.text ("const " ++ Names.ofKey "defaults" ++ " = "), q.part a, .text ";\n"]
  | none => []

/-- Declares the type of the properties that the component shows to its users. -/
def publicProps (q : SetupScript) : List Generate.Piece :=
  let types := (if q.propsType.isSome then [Names.ofKey "Props"] else []) ++
    if q.hasModels then [Names.ofKey "ModelProps"] else []
  if types.isEmpty then []
  else
    [.text ("type " ++ Names.ofKey "PublicProps" ++ " = " ++ " & ".intercalate types ++ ";\n"), .declares (Names.ofKey "PublicProps")]

end SetupScript

end TypedSfc
