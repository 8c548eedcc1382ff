import TypedSfc.Generate.Component
import TypedSfc.Generate.Declarations
import TypedSfc.Generate.Generic
import TypedSfc.Generate.Macro
import TypedSfc.Generate.Surrounding

/-!
# Scripts

The scripts are copied with their macros made plain code, and the component is put together and exported. The code of the template
stands where the bindings of the scripts can be seen.
-/

namespace TypedSfc

namespace Generate

namespace Scene

/-! ## The plain script -/

/-- The path to import for a source file: that of the script it is compiled to, but for declaration files. -/
def importPath (path : String) : String :=
  let cs := path.toList
  let stem := fun (ending : String) => String.ofList (cs.take (cs.length - ending.length))
  if ".ts".toList.isSuffixOf cs && !".d.ts".toList.isSuffixOf cs then stem ".ts" ++ ".js"
  else if ".tsx".toList.isSuffixOf cs then stem ".tsx" ++ ".jsx"
  else path

/-- The export of a component that another file holds. -/
def reexport (path : String) (offset : Nat) : List Piece :=
  [.text ("import " ++ name "export" ++ " from "),
    .quoted (importPath path) SourceId.document ⟨offset, offset + path.utf8ByteSize⟩, .text ";\n", exportLine]

/-- The value that is exported, without what is around it, and whether it is an object literal. -/
def exportedValue (d : Script.DefaultExport) : Span × Bool :=
  match d.options with
  | some o => (o.expression, o.isObject)
  | none => (d.expression, d.isObject)

/-- The exported value. An object literal is wrapped in the call that the options ask for. -/
def wrapped (s : Scene) (p : PlainScript) (d : Script.DefaultExport) : List Piece :=
  let (value, isObject) := exportedValue d
  match s.options.wrapper with
  | left :: right :: _ => if isObject then [.text left, p.part value, .text right] else [p.part value]
  | _ => [p.part value]

/-- A script with a default export: another value is exported in its place, and `between` stands before the variable that holds it. -/
def withExport (s : Scene) (p : PlainScript) (d : Script.DefaultExport) (key : String) (between : List Piece) : List Piece :=
  let value := (exportedValue d).1
  [p.part ⟨0, value.start⟩, .text ("\x7b\x7d as typeof " ++ name "export"), p.part ⟨value.stop, d.range.stop⟩, .text ";\n"] ++
  between ++
  declaration SourceId.script p.block.size key ++ s.wrapped p d ++
  [.text ";\n", p.part ⟨d.range.stop, p.block.size⟩]

/-- A script alone. -/
def plainOnly (s : Scene) (p : PlainScript) : List Piece :=
  match p.exported with
  | some d => s.withExport p d "export" (s.templateSection (some (name "export")))
  | none =>
    [p.part ⟨0, p.block.size⟩] ++ declaration SourceId.script p.block.size "export" ++
    [.text ("(await import(\"" ++ s.options.lib ++ "\")).defineComponent(\x7b\x7d);\n")] ++
    s.templateSection (some (name "export")) ++ [exportLine]

/-! ## The setup script -/

/-- The imports of a setup script, which stay at the top level. -/
def imports (q : SetupScript) : List Piece := [q.part ⟨0, q.bodyStart⟩]

/-- The body of a setup script, with the declarations and the template behind it. -/
def setupBody (s : Scene) (q : SetupScript) (self : Option String) : List Piece :=
  Edit.copyWith q.part ⟨q.bodyStart, q.block.size⟩ (SetupEdits.all s q) ++
  [.freshLine] ++ s.macroDeclarations ++ q.modelDeclarations ++ q.defaultsDeclaration ++ q.publicProps ++ s.templateSection self

/-- The component of a setup script, handed over by `output`. The type of the slots goes around it. -/
def setupComponent (s : Scene) (q : SetupScript) (output : List Piece) : List Piece :=
  if s.hasSlots then
    [.text ("const " ++ name "base" ++ " = ")] ++ s.component q ++ [.text ";\n"] ++ output ++
    [.needs .withSlots,
      .text ("\x7b\x7d as " ++ HelperType.withSlots.name ++ "<typeof " ++ name "base" ++ ", " ++ name "Slots" ++ ">;\n")]
  else output ++ s.component q ++ [.text ";\n"]

/-- The declaration of the exported component for a setup script. -/
def setupExport (q : SetupScript) : List Piece := declaration SourceId.scriptSetup q.block.size "export"

/-- A component with type parameters. -/
def generic (s : Scene) (q : SetupScript) (parameters : BlockAttr) (self : Option String) : List Piece :=
  genericHead parameters ++ s.setupBody q self ++ s.genericTail q

/-- A setup script alone. -/
def setupOnly (s : Scene) (q : SetupScript) : List Piece :=
  imports q ++
  (match q.block.attr? "generic" with
    | some g => setupExport q ++ s.generic q g none
    | none => s.setupBody q none ++ s.setupComponent q (setupExport q)) ++
  [exportLine]

/-- Both scripts: the body of the setup script becomes a function, so that its names do not meet those of the other one. -/
def both (s : Scene) (p : PlainScript) (q : SetupScript) : List Piece :=
  let self := p.exported.map fun _ => name "self"
  imports q ++
  (match p.exported with
    | some d => s.withExport p d "self" []
    | none => [p.part ⟨0, p.block.size⟩, exportLine]) ++
  setupExport q ++
  match q.block.attr? "generic" with
  | some g => s.generic q g self
  | none =>
    [.text "await (async () => \x7b\n"] ++ s.setupBody q self ++ s.setupComponent q [.text "return "] ++ [.text "\x7d)();\n"]

/-! ## The whole -/

/-- The file that a script names as its source: the path, and where it stands in the document. -/
def source? (p : PlainScript) : Option (String × Nat) :=
  match p.block.attr? "src" with
  | some (.value path offset _) => some (path, offset)
  | _ => none

/-- The code around a template. -/
def pieces (s : Scene) : List Piece :=
  match s.script, s.setup with
  | some p, setup =>
    match source? p, setup with
    | some (path, offset), _ => reexport path offset
    | none, some q => s.both p q
    | none, none => s.plainOnly p
  | none, some q => s.setupOnly q
  | none, none => []

/-- Writes the whole code; the helper types stand at its end. -/
def write (s : Scene) (inner : Code) : Written :=
  let w := Written.ofPieces inner s.pieces
  w.onCode (·.text (HelperType.declarations s.options.lib w.helpers))

end Scene

end Generate

end TypedSfc
