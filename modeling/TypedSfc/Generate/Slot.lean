import TypedSfc.Generate.Binding

/-!
# Slots

A component hands slots to its parent through outlets, and fills the slots of its children. Where the slots are declared an outlet is
checked against the declaration; otherwise the outlets together make the type of the slots.
-/

namespace TypedSfc

namespace Generate

open Markup (Directive Element Property)

/-! ## Outlets -/

/-- Whether a property gives the name of an outlet. -/
def isOutletName : Property → Bool
  | .plain a => a.name == "name"
  | .directive d => d.name == "bind" && d.arg.any fun a => a.content == "name"

/-- The properties without the first one that gives the name of the outlet. -/
def withoutName : List Property → List Property
  | [] => []
  | p :: ps => if isOutletName p then ps else p :: withoutName ps

/-- Writes the slot of an outlet as a member of the declared slots. -/
def declaredSlot (e : Element) (slots : String) : Gen Unit := do
  let stop := e.tagOffset + e.tag.utf8ByteSize
  match e.props.find? isOutletName with
  | some p =>
    let b ← openAt p.span.start Info.checked
    text slots
    match p with
    | .plain a =>
      match a.value with
      | some v => propertyAccess v.content v.offset Info.checked
      | none => text "[\"default\"]"
    | .directive d =>
      text "["
      bindingValue d
      text "]"
    close b p.span.stop
  | none =>
    let b ← openAt e.tagOffset Info.checked
    text (slots ++ "[")
    bounded e.tagOffset stop Info.checked "\"default\""
    text "]"
    close b stop

/-- Writes an outlet that is checked against the declared slots. -/
def declaredOutlet (e : Element) (slots : String) : Gen Unit := do
  text (Names.ofKey "asFunctionalSlot" ++ "(")
  declaredSlot e slots
  text ")("
  let b ← openAt e.tagOffset Info.checked
  text "\x7b\n"
  let _ ← entries e (withoutName e.props) true
  text "\x7d"
  close b (e.tagOffset + e.tag.utf8ByteSize)
  text ");\n"

/-- Notes an outlet with a fixed name. -/
def noteOutlet (name : String) (offset : Option Nat) (variable' : String) : Gen Unit := do
  let props ← hoist variable'
  modify fun s => { s with slots := s.slots ++ [⟨name, offset, props⟩] }

/-- Writes the computed name of an outlet, and notes the outlet. -/
def dynamicOutlet (name : Markup.Expression) (variable' : String) : Gen Unit := do
  let nameVar ← fresh
  text ("var " ++ nameVar ++ " = " ++ Names.ofKey "tryAsConstant" ++ "(")
  expression name.content name.offset "" ""
  text ");\n"
  let nameVar ← hoist nameVar
  let props ← hoist variable'
  modify fun s => { s with dynamicSlots := s.dynamicSlots ++ [⟨nameVar, props⟩] }

/-- Writes an outlet whose properties become part of the type of the slots. -/
def inferredOutlet (e : Element) (variable' : String) : Gen Unit := do
  text ("var " ++ variable' ++ " = \x7b\n")
  let _ ← entries e e.props ((← read).options.flag .checkUnknownProps)
  text "\x7d;\n"
  match e.props.find? isOutletName with
  | some (.plain a) =>
    match a.value with
    | some v => noteOutlet v.content (some v.offset) variable'
    | none => noteOutlet "default" none variable'
  | some (.directive d) =>
    match d.exp with
    | some x => dynamicOutlet x variable'
    | none => noteOutlet "default" none variable'
  | none => noteOutlet "default" none variable'

/-- Writes an outlet, and what stands in it. -/
def outlet (e : Element) (inner : Gen Unit) : Gen Unit := do
  let variable' ← fresh
  let setting ← read
  if setting.hasDefineSlots then declaredOutlet e (setting.slotsName.getD (Names.ofKey "slots"))
  else inferredOutlet e variable'
  inner

/-! ## Contents -/

/-- The place of the type that a parameter is given, from behind what it names. -/
def typeOf? : Script.Pat → Option Span
  | .name _ t _ | .array _ _ t _ | .object _ _ t _ => t
  | .rest _ p t _ => t.map fun t => ⟨p.span.stop, t.stop⟩
  | .default _ p _ => typeOf? p
  | .keyed .. | .target _ => none

/-- The parameters that a text of a function without a body has. -/
def parametersOf? (reader : Script.Reader) (code : String) : Option (List Script.Pat) :=
  match (reader code "ts").items with
  | some (.stmt (.expr _ (.arrow _ _ ps _)) :: _) => some ps
  | _ => none

/-- What takes the place of the body of a function. -/
def emptyBody : String := ") => \x7b\x7d"

/-- A buffer in which the types that stand at some places of a text are made comments; the text starts at `start`. -/
def commentTypes (start : Nat) : List (Option Span) → Code → Code
  | [], c => c
  | none :: ts, c => commentTypes start ts c
  | some t :: ts, c =>
    let c := (c.replaceRange SourceId.template (start + t.start) (start + t.start) "/* ").2
    commentTypes start ts (c.replaceRange SourceId.template (start + t.stop) (start + t.stop) " */").2

/-- Writes a parameter of a function type: its own type, if it has one. -/
def typedParameter (code : String) (start : Nat) : Option Span → Gen Unit
  | none => text "_, "
  | some t => do
    text "_"
    mapped ((t.slice code).getD "") SourceId.template (start + t.start) Info.checked
    text ", "

/-- Writes the parameters of a slot as a pattern, with their types as those of a function, and declares their names. -/
def slotParameters (e : Markup.Expression) (slotVar : String) : Gen Unit := do
  let code := "(" ++ e.content ++ emptyBody
  match parametersOf? (← read).reader code with
  | none => pure ()
  | some ps =>
    let start := e.offset - 1
    let stop := start + code.utf8ByteSize
    let types := ps.map typeOf?
    let (params, _) ← captured (expression code start "" "")
    let params := (params.replaceRange SourceId.template start (start + 1) "").2
    let params := (params.replaceRange SourceId.template (stop - emptyBody.length) stop "").2
    text "const ["
    onCode (·.append (commentTypes start types params))
    text ("] = " ++ Names.ofKey "vSlot" ++ "(" ++ slotVar ++ "!")
    if types.any Option.isSome then
      text ", "
      let b ← openAt e.offset Info.checked
      text "("
      for t in types do
        typedParameter code start t
      text emptyBody
      close b e.stop
    text ");\n"
    declare (ps.flatMap fun p => p.bound.map (·.id.name))

/-- Writes the name of the slot that a directive fills. -/
def slotName (d : Directive) : Gen Unit := do
  match d.arg.filter fun a => !a.content.isEmpty with
  | some a =>
    if a.isStatic then objectKey a.content a.offset Info.checked false true
    else objectKey ("[" ++ a.content ++ "]") (a.offset - 1) Info.checked false true
  | none => bounded d.span.start (d.span.start + d.rawName.utf8ByteSize) Info.checked "default"

/-- Writes what fills a slot of a component: the default one, or the one that a directive names. -/
def slotContent (d : Option Directive) (componentVar : String) (inner : Gen Unit) : Gen Unit := do
  let slotVar ← fresh
  match d with
  | some d =>
    text "\x7b\nconst \x7b "
    slotName d
  | none => text "const \x7b default"
  text (": " ++ slotVar ++ " \x7d = " ++ componentVar ++ ".slots!;\n")
  inScope do
    match d.bind (·.exp) with
    | some x => slotParameters x slotVar
    | none => pure ()
    inner
  if d.isSome then text "\x7d\n"

end Generate

end TypedSfc
