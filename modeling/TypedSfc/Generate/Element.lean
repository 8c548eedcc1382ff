import TypedSfc.Generate.Slot

/-!
# Elements

An element becomes the call of a function that takes its properties. For a native element the function comes from the table of
intrinsic elements; for a component it comes from the variable that the tag names, or from a look-up among the components that are
known.
-/

namespace TypedSfc

namespace Generate

open Markup (Directive Element Property)

/-- The function that makes a call of an element, with the digit that tells whether unknown properties are faults. -/
def asFunctional (key : String) (strict : Bool) : String := Names.ofKey (key ++ if strict then "0" else "1")

/-- Writes the object of the properties of an element as the argument of a call. -/
def propertiesCall (e : Element) : Gen (List Loose) := do
  let strict := (← read).options.flag .checkUnknownProps
  let b ← openAt e.tagOffset Info.checked
  text "\x7b\n"
  let loose ← entries e e.props strict
  text "\x7d"
  close b (e.tagOffset + e.tag.utf8ByteSize)
  text ");\n"
  pure loose

/-- The name of the reference that an element is given, and its place. A plain name is read from the component, unless it is a
variable that holds the reference. -/
def elementRef (e : Element) : Gen (Option (String × Nat)) := do
  match (e.attr "ref").bind (·.value) with
  | none => pure none
  | some v =>
    if Text.isPlainIdent v.content && !(← read).setupRefs.contains v.content then access v.content
    pure (some (v.content, v.offset))

/-- Whether an element is the only root of the template. -/
def isRoot (e : Element) : Gen Bool := do
  pure ((← read).roots.contains (some e.span.start))

/-- Whether an element is bound to the attributes of the component. -/
def bindsAttributes : Property → Bool
  | .directive d => d.name == "bind" && d.exp.any fun x => x.content == "$attrs"
  | .plain _ => false

/-- Whether the attributes of the component go to an element. -/
def inheritsAttributes (e : Element) : Gen Bool := do
  let setting ← read
  pure (setting.options.flag .fallthroughAttributes &&
    ((setting.inheritAttrs && (← isRoot e)) || e.props.any bindsAttributes))

/-- Notes what the attributes of the component are handed to. -/
def noteInheritor (name : String) : Gen Unit := modify fun s => { s with inheritors := addNew name s.inheritors }

/-- Notes the type of a root element. -/
def noteRootType (type : String) : Gen Unit := modify fun s => { s with rootTypes := addNew type s.rootTypes }

/-- The brackets behind a type of which there may be many. -/
def manyMark : Gen String := do
  pure (if (← get).inLoop then "[]" else "")

/-! ## Native elements -/

/-- Writes a native element, and what stands in it. -/
def native (e : Element) (inner : Gen Unit) : Gen Unit := do
  let setting ← read
  let intrinsics := Names.ofKey "intrinsics"
  text (asFunctional "asFunctionalElement" (setting.options.flag .checkUnknownProps) ++ "(" ++ intrinsics)
  propertyAccess e.tag e.tagOffset Info.checked
  match e.endTagOffset setting.source with
  | some stop =>
    text (", " ++ intrinsics)
    propertyAccess e.tag stop Info.checked
  | none => pure ()
  text ")("
  let loose ← propertiesCall e
  writeLoose loose
  checkDirectives e.props
  let type := Names.ofKey "Elements" ++ "[\"" ++ e.tag ++ "\"]"
  match ← elementRef e with
  | some (name, offset) => noteRef name (type ++ (← manyMark)) offset
  | none => pure ()
  if ← isRoot e then noteRootType type
  if ← inheritsAttributes e then noteInheritor (intrinsics ++ "." ++ e.tag)
  inner

/-- Writes a `<template>` that fills no slot: its properties if it has any, and what stands in it. -/
def group (e : Element) (inner : Gen Unit) : Gen Unit := do
  if !e.props.isEmpty then
    let strict := (← read).options.flag .checkUnknownProps
    text (asFunctional "asFunctionalElement" strict ++ "(" ++ Names.ofKey "intrinsics" ++ ".template)(")
    let _ ← propertiesCall e
  inner

/-! ## Components -/

/-- What a component is called by: a name or an expression, the places of it, and the properties besides it. -/
structure Callee where
  code : String
  isExpression : Bool
  start : Nat
  stop : Option Nat
  props : List Property
  deriving Inhabited

/-- The expression that says which component a dynamic one is. -/
def dynamicExpression? : Property → Option Markup.Expression
  | .directive d => if d.name == "bind" && d.arg.any (fun a => a.isStatic && a.content == "is") then d.exp else none
  | .plain _ => none

/-- The first expression that says which component a dynamic one is, and the properties without it. -/
def splitDynamic : List Property → Option (Markup.Expression × List Property)
  | [] => none
  | p :: ps =>
    match dynamicExpression? p with
    | some x => some (x, ps)
    | none => (splitDynamic ps).map fun r => (r.1, p :: r.2)

/-- What a component is called by. A tag with dots is an expression, and so is what a dynamic component is bound to. -/
def Callee.ofElement (e : Element) (source : List Char) : Callee :=
  let plain : Callee := ⟨e.tag, e.tag.toList.contains '.', e.tagOffset, e.endTagOffset source, e.props⟩
  if !plain.isExpression && e.tag == "component" then
    match splitDynamic e.props with
    | some (x, ps) => ⟨x.content, true, x.offset, none, ps⟩
    | none => plain
  else plain

/-- The names that a tag may stand for, each once. -/
def spellings (tag : String) : List String :=
  let camel := Text.camelize tag
  addNew tag (addNew camel [Text.capitalize camel])

/-- Writes something at the opening tag, and at the closing tag if there is one. -/
def atBothTags (c : Callee) (g : Nat → Gen Unit) : Gen Unit := do
  g c.start
  match c.stop with
  | some stop =>
    text " || "
    g stop
  | none => pure ()

/-- A tag in the spelling of a constant: only the case of the first letter is taken from it. -/
def spelledAs (constant tag : String) : String :=
  String.ofList ((constant.toList.head?.getD '\x00') :: tag.toList.drop 1)

/-- Writes the look-up of a component among those that are known. -/
def lookUp (variable' : String) (c : Callee) (names : List String) : Gen Unit := do
  let setting ← read
  let own := if names.contains setting.componentName then ", typeof " ++ Names.ofKey "export" else ", void"
  text ("let " ++ variable' ++ "!: " ++ Names.ofKey "WithComponent" ++ "<\"" ++ c.code ++ "\", " ++ Names.ofKey "LocalComponents" ++
    ", " ++ Names.ofKey "GlobalComponents" ++ own ++ String.join (names.map fun n => ", \"" ++ n ++ "\"") ++ ">[")
  quotedKey c.code c.start (Info.propertyAccess (setting.options.flag .checkUnknownComponents))
  text "];\n"

/-- Writes the variable that holds a component. -/
def componentVariable (variable' : String) (c : Callee) : Gen Unit := do
  if c.isExpression then
    text ("const " ++ variable' ++ " = ")
    atBothTags c fun at' => expression c.code at' "(" ")"
    text ";\n"
  else
    modify fun s => { s with componentTags := addNew c.code s.componentTags }
    let names := spellings c.code
    match names.find? (← read).setupConsts.contains with
    | some constant =>
      let code := spelledAs constant c.code
      text ("const " ++ variable' ++ " = ")
      atBothTags c fun at' => camelized code at' Info.checked
      text ";\n"
    | none => lookUp variable' c names

/-- Writes type arguments that a comment gives. -/
def writeGeneric (g : Generic) : Gen Unit := do
  let b ← openAt g.offset Info.checked
  text "<"
  onCode (·.joined b g.content g.offset)
  text ">"
  close b (g.offset + g.content.utf8ByteSize)

/-- The variables of a component: the component, the function that it is called by, and the node that the call makes. -/
structure ComponentVars where
  component : String
  function : String
  node : String
  deriving Inhabited

/-- Writes the call of a component with its properties. -/
def componentCall (e : Element) (c : Callee) (v : ComponentVars) (props : Code) : Gen Unit := do
  let strict := (← read).options.flag .checkUnknownProps
  text "// @ts-ignore\n"
  text ("const " ++ v.function ++ " = " ++ asFunctional "asFunctionalComponent" strict ++ "(" ++ v.component ++ ", new " ++ v.component ++
    "(\x7b\n" ++ props.toText ++ "\x7d));\n")
  text "const "
  bounded e.span.start e.span.stop Info.unusedName v.node
  text (" = " ++ v.function)
  match ← currentGeneric with
  | some g => writeGeneric g
  | none => pure ()
  text "("
  let b ← openAt c.start Info.checked
  text "\x7b\n"
  onCode (·.append props)
  text "\x7d"
  close b (c.start + c.code.utf8ByteSize)
  text (", ..." ++ Names.ofKey "functionalComponentArgsRest" ++ "(" ++ v.function ++ "));\n")

/-- Writes the variable of the instance of a component, if a reference or the root asks for it. -/
def componentInstance (e : Element) (c : Callee) : Gen Unit := do
  let ref ← elementRef e
  let names := (← read).options.fallthroughNames
  let asRoot := (← isRoot e) && !names.contains (Text.hyphenate c.code)
  if ref.isSome || asRoot then
    let instance' ← fresh
    let ctx ← contextVar
    text ("const " ++ instance' ++ " = \x7b\x7d as (Parameters<NonNullable<typeof " ++ ctx ++ "[\"expose\"]>>[0] | null)" ++
      (← manyMark) ++ ";\n")
    match ref with
    | some (name, offset) => noteRef name ("typeof " ++ (← hoist instance')) offset
    | none => pure ()
    if asRoot then noteRootType ("NonNullable<typeof " ++ instance' ++ ">[\"$el\"]")

/-- Writes a component, and what stands in it. -/
def component (e : Element) (hasChildren : Bool) (inner : Gen Unit) : Gen Unit := do
  let setting ← read
  let v : ComponentVars := ⟨← fresh, ← fresh, ← fresh⟩
  let ctxName ← fresh
  let propsName ← fresh
  let (ctxUsed, propsUsed) ← inComponent ctxName propsName do
    let c := Callee.ofElement e setting.source
    componentVariable v.component c
    let (props, loose) ← captured (entries e c.props (setting.options.flag .checkUnknownProps))
    componentCall e c v props
    writeLoose loose
    componentListeners e v.component
    checkDirectives e.props
    componentInstance e c
    if ← inheritsAttributes e then noteInheritor (← propsVar)
    let d := e.directive "slot"
    if d.isSome || hasChildren then slotContent d (← contextVar) inner
  let types := "<typeof " ++ v.component ++ ", typeof " ++ v.node ++ ">;\n"
  if ctxUsed then text ("var " ++ ctxName ++ "!: " ++ Names.ofKey "FunctionalComponentCtx" ++ types)
  if propsUsed then text ("var " ++ propsName ++ "!: " ++ Names.ofKey "FunctionalComponentProps" ++ types)

end Generate

end TypedSfc
