import TypedSfc.Document.Block
import TypedSfc.Generate.Piece
import TypedSfc.Options.Basic
import TypedSfc.Script.Setup

/-!
# Scenes

What the code around a template depends on: the scripts of the document with what was read off them, and what the code of the template
and the styles declares and reads.
-/

namespace TypedSfc

/-- A plain script with what was read off it. -/
structure PlainScript where
  block : Block
  bindings : Script.Bindings
  exported : Option Script.DefaultExport
  deriving Inhabited

/-- A setup script with what was read off it. -/
structure SetupScript where
  block : Block
  setup : Script.Setup
  deriving Inhabited

namespace PlainScript

/-- What a script that was read says. -/
def ofModule (o : Options) (b : Block) (m : Script.Module) : PlainScript :=
  ⟨b, m.bindings b.content o.extensions, m.defaultExport? b.content⟩

/-- A part of a script. -/
def part (p : PlainScript) (s : Span) : Generate.Piece := .copied (p.block.textAt s) SourceId.script s.start

/-- The options of the component that is exported. -/
def options? (p : PlainScript) : Option Script.ExportOptions := p.exported.bind (·.options)

end PlainScript

namespace SetupScript

/-- What a script that was read says. -/
def ofModule (o : Options) (b : Block) (m : Script.Module) : SetupScript := ⟨b, m.setup b.content o.extensions o.aliases⟩

/-- A part of a script. -/
def part (q : SetupScript) (s : Span) : Generate.Piece := .copied (q.block.textAt s) SourceId.scriptSetup s.start

/-- Where the imports end with which a script begins. -/
def bodyStart (q : SetupScript) : Nat := max q.setup.leadingEnd q.setup.importsEnd

/-- The argument that the properties are declared by. -/
def propsArg (q : SetupScript) : Option Span := q.setup.props.bind (·.assigned.call.arg)

/-- The type that the properties are declared by. -/
def propsType (q : SetupScript) : Option Span := q.setup.props.bind (·.assigned.call.typeArg)

/-- The argument that gives defaults to properties. -/
def defaultsArg (q : SetupScript) : Option Span := q.setup.withDefaults.bind (·.arg)

/-- Whether models are declared. -/
def hasModels (q : SetupScript) : Bool := !q.setup.models.isEmpty

/-- Whether the properties have a type of their own. -/
def hasPublicProps (q : SetupScript) : Bool := q.propsType.isSome || q.hasModels

end SetupScript

namespace Generate

/-- What the code around a template depends on. -/
structure Scene where
  options : Options
  script : Option PlainScript
  setup : Option SetupScript
  /-- The types that the code of the template and the styles declares. -/
  types : List String
  /-- The names of the scripts that this code reads. -/
  exposed : List String
  deriving Inhabited

namespace Scene

/-- The name of a key, as a value or a type of the generated code. -/
abbrev name (key : String) : String := Names.ofKey key

/-- Whether the code of the template and the styles declares the type of a key. -/
def hasType (s : Scene) (key : String) : Bool := s.types.contains (name key)

/-- A member of the module that types are imported from. -/
def ofLib (s : Scene) (member : String) : String := "import(\"" ++ s.options.lib ++ "\")." ++ member

/-- Whether the slots have a type. -/
def hasSlots (s : Scene) : Bool := s.setup.any (·.setup.slots.isSome) || s.hasType "Slots"

/-- The types of the functions that emit events. -/
def emitTypes (s : Scene) : List String :=
  match s.setup with
  | none => []
  | some q =>
    (match q.setup.emits with
      | some e => ["typeof " ++ e.name.getD (name "emit")]
      | none => []) ++
    (if q.hasModels then ["typeof " ++ name "modelEmit"] else [])

/-- The declaration of a constant, up to its value; its name stands for a whole script, so that it may go without use. -/
def declaration (source : SourceId) (size : Nat) (key : String) : List Piece :=
  [.text "const ", .bounded (name key) source ⟨0, size⟩ Info.unusedName, .text " = "]

/-- The export of the component. -/
def exportLine : Piece := .text ("export default \x7b\x7d as typeof " ++ name "export" ++ ";\n")

end Scene

end Generate

end TypedSfc
