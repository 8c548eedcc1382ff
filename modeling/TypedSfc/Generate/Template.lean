import TypedSfc.Generate.Node

/-!
# Templates

Behind the code of its nodes a template declares what it shows of the component: the slots that it has, what its attributes are handed
to, the references it makes, and the type of its root.
-/

namespace TypedSfc

namespace Generate

open Markup (Fragment)

/-- Writes the hoisted variables. -/
def hoistedVariables : Gen Unit := do
  let hs := (← get).hoisted
  if !hs.isEmpty then
    text ("// @ts-ignore\nvar " ++ String.join (hs.map fun h => h.2 ++ " = " ++ h.1 ++ ", ") ++ ";\n")

/-- Writes an outlet as a part of the type of the slots. -/
def slotPart (o : SlotOutlet) : Gen Unit := do
  text "\n& \x7b "
  match o.offset with
  | some offset => if o.name.isEmpty then text "default" else objectKey o.name offset Info.silent false false
  | none => text "default"
  text ("?: (props: typeof " ++ o.propsVar ++ ") => any \x7d")

/-- Writes the type of the slots, unless they are declared. -/
def slotsType : Gen Unit := do
  let s ← get
  if !(← read).hasDefineSlots && !(s.slots.isEmpty && s.dynamicSlots.isEmpty) then
    noteType (Names.ofKey "Slots")
    text ("type " ++ Names.ofKey "Slots" ++ " = \x7b\x7d")
    for o in s.dynamicSlots do
      text ("\n& \x7b [K in NonNullable<typeof " ++ o.nameVar ++ ">]?: (props: typeof " ++ o.propsVar ++ ") => any \x7d")
    for o in s.slots do
      slotPart o
    text ";\n"

/-- Writes the type of the attributes that are handed on. -/
def inheritedType : Gen Unit := do
  let names := (← get).inheritors
  if !names.isEmpty then
    noteType (Names.ofKey "InheritedAttrs")
    text ("type " ++ Names.ofKey "InheritedAttrs" ++ " = Partial<" ++ " & ".intercalate (names.map ("typeof " ++ ·)) ++ ">;\n")

/-- Writes the targets of references of one name; `isFirst` tells whether one was written. -/
def refTargets (name : String) : Bool → List RefTarget → Gen Unit
  | _, [] => pure ()
  | isFirst, t :: ts => do
    if !isFirst then text " | "
    text "\x7b "
    objectKey name t.offset Info.silent false false
    text (": " ++ t.type ++ " \x7d")
    refTargets name false ts

/-- Writes the references of one name as a part of their type; several of them stand in parentheses. -/
def refPart (name : String) (ts : List RefTarget) : Gen Unit := do
  let grouped := decide (2 ≤ ts.length)
  text "\n& "
  if grouped then text "("
  refTargets name true ts
  if grouped then text ")"

/-- Writes the type of the references. -/
def refsType : Gen Unit := do
  let refs := (← get).refs
  if !refs.isEmpty then
    noteType (Names.ofKey "TemplateRefs")
    text ("type " ++ Names.ofKey "TemplateRefs" ++ " = \x7b\x7d")
    for r in refs do
      refPart r.1 r.2
    text ";\n"

/-- Writes the type of the root, unless some place has several roots. -/
def rootType : Gen Unit := do
  let types := (← get).rootTypes
  if !types.isEmpty && !(← read).roots.contains none then
    noteType (Names.ofKey "RootEl")
    text ("type " ++ Names.ofKey "RootEl" ++ " =" ++ String.join (types.map ("\n| " ++ ·)) ++ ";\n")

/-- Writes the members with a `$` whose types are inferred. -/
def dollarMembers : Gen Unit := do
  let setting ← read
  let types := (← get).types
  let declared := fun (key fallback : String) => if types.contains (Names.ofKey key) then Names.ofKey key else fallback
  let member := fun (name type : String) => if setting.dollars.contains name then name ++ ": " ++ type ++ ";\n" else ""
  let attrs := "import(\"" ++ setting.options.lib ++ "\").ComponentPublicInstance[\"$attrs\"]" ++
    if types.contains (Names.ofKey "InheritedAttrs") then " & " ++ Names.ofKey "InheritedAttrs" else ""
  if !setting.dollars.isEmpty then
    text ("var " ++ Names.ofKey "dollars" ++ "!: \x7b\n" ++ member "$slots" (declared "Slots" "\x7b\x7d") ++ member "$attrs" attrs ++
      member "$refs" (declared "TemplateRefs" "\x7b\x7d") ++ member "$el" (declared "RootEl" "any") ++ "\x7d;\n")

/-- Writes a template with its declarations; without one, the declarations alone. -/
def template (f : Option Fragment) : Gen Unit := do
  let setting ← read
  inScope do
    declare (setting.setupConsts ++ setting.propsName.toList ++ setting.slotsName.toList)
    match f with
    | some f => nodes f.nodes
    | none => pure ()
    hoistedVariables
    slotsType
    inheritedType
    refsType
    rootType
    dollarMembers

/-- The members with a `$` whose types the options ask for. -/
def dollarsOf (o : Options) : List String :=
  [("$slots", Options.Flag.inferTemplateDollarSlots), ("$attrs", .inferTemplateDollarAttrs), ("$refs", .inferTemplateDollarRefs),
    ("$el", .inferTemplateDollarEl)].filterMap fun d => if o.flag d.2 then some d.1 else none

/-- What a generator is told about a component whose template is not looked at. -/
def Setting.ofOptions (o : Options) : Setting where
  options := o
  reader := Script.Module.read
  source := []
  setupConsts := []
  setupRefs := []
  hasDefineSlots := false
  propsName := none
  slotsName := none
  componentName := ""
  inheritAttrs := true
  dollars := []
  roots := []

/-- The same about a component with a template. -/
def Setting.withTemplate (s : Setting) (source : String) (f : Option Fragment) : Setting :=
  { s with
    source := source.toList
    dollars := dollarsOf s.options
    roots := match f with
      | some f => rootsOfAll s.options.fallthroughNames f.nodes
      | none => [] }

/-- The code of a template and what it shows of the component, with group tokens that go on from those of a buffer. -/
def State.ofTemplate (s : Setting) (source : String) (f : Option Fragment) (code : Code) : State :=
  ((template f).run (s.withTemplate source f) |>.run { code := code }).2

end Generate

end TypedSfc
