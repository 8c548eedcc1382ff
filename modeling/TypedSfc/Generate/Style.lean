import TypedSfc.Document.Block
import TypedSfc.Generate.Template

/-!
# Styles

The values that styles are bound to are checked like expressions of the template, and each style module becomes a property of one
type, with the names of its classes.
-/

namespace TypedSfc

/-- The name of the module that a style is, if it is one. -/
def StyleBlock.moduleName? (s : StyleBlock) : Option String :=
  (s.block.attr? "module").map fun
    | .flag => "$style"
    | .value name _ _ => name

namespace Generate

/-- Writes the name of a class as a part of the type of its module. -/
def classPart (source : SourceId) (r : StyleRef) : Gen Unit :=
  match r.text.toList with
  | '.' :: name => do
    text "\n & \x7b \""
    mapped (String.ofList name) source (r.offset + 1) Info.silent
    text "\": string \x7d"
  | _ => pure ()

/-- Writes a style as a property of the type of the modules, if it is a module. Unless they are strict, modules have all names. -/
def moduleMember (s : StyleBlock × Nat) : Gen Unit :=
  match s.1.moduleName? with
  | none => pure ()
  | some name => do
    text (name ++ ": ")
    if !(← read).options.flag .strictCssModules then text "Record<string, string> & "
    text (Names.ofKey "PrettifyGlobal" ++ "<\x7b\x7d")
    s.1.classNames.forM (classPart (SourceId.style s.2))
    text ">;\n"

/-- Writes the type of the modules, if there are any. -/
def moduleTypes (styles : List StyleBlock) : Gen Unit := do
  if styles.any (·.moduleName?.isSome) then
    noteType (Names.ofKey "StyleModules")
    text ("type " ++ Names.ofKey "StyleModules" ++ " = \x7b\n")
    styles.zipIdx.forM moduleMember
    text "\x7d;\n"

/-- Writes the values that a style is bound to. -/
def styleBindings (s : StyleBlock × Nat) : Gen Unit :=
  s.1.bindings.forM fun b => do
    expressionIn (SourceId.style s.2) b.text b.offset Info.checked "(" ")"
    text ";\n"

/-- Writes styles. -/
def styles (ss : List StyleBlock) : Gen Unit := do
  let setting ← read
  inScope do
    declare setting.setupConsts
    moduleTypes ss
    ss.zipIdx.forM styleBindings

/-- The code of styles and what it reads of the component, with group tokens that go on from those of a buffer. -/
def State.ofStyles (s : Setting) (ss : List StyleBlock) (code : Code) : State :=
  ((styles ss).run s |>.run { code := code }).2

end Generate

end TypedSfc
