import TypedSfc.Generate.Expression

/-!
# Listeners

A listener is a function, or statements that are run for the event. Statements become the body of a function that takes `$event`, and
since they run later, the guards around the element are stated again at their start.
-/

namespace TypedSfc

namespace Generate

open Markup (Directive Element Property)

/-- Whether an expression is a name with members behind it. -/
def isAccessChain : Script.Expr → Bool
  | .name _ => true
  | .member _ e _ => isAccessChain e
  | _ => false

/-- Whether a listener is written as statements, rather than as a function or its name. -/
def isCompound (reader : Script.Reader) (code : String) : Bool :=
  match (reader code "ts").items with
  | none | some [] => false
  | some [.stmt (.expr _ (.arrow ..))] | some [.stmt (.funcDecl ..)] => false
  | some [.stmt (.expr _ e)] => !isAccessChain e
  | some _ => true

/-- Writes the key of a listener, such as `onClick` for `click`. -/
def listenerKey (name : String) (start : Nat) (front : String) : Gen Unit := do
  let i := Info.propertyOf ((← read).options.flag .checkUnknownEvents)
  let name := if front.isEmpty then name else Text.capitalize name
  let b ← openAt start i
  let quoted := !Text.isPlainIdent (Text.camelize name)
  if quoted then text "\""
  text front
  onCode (·.camelizedIn b name start)
  if quoted then text "\""
  close b (start + name.utf8ByteSize)

/-- Writes a function that runs something for an event. -/
def eventFunction (body : Gen Unit) : Gen Unit := do
  text "(...[$event]) => \x7b\n"
  body
  text "\x7d"

/-- Writes the value of a listener. -/
def listenerValue (d : Directive) : Gen Unit := do
  match d.exp with
  | none => text "() => \x7b\x7d"
  | some e =>
    if isCompound (← read).reader e.content then
      eventFunction do
        inScope do
          declare ["$event"]
          writeGuards
          expression e.content e.offset "" ""
          text ";\n"
    else expression e.content e.offset "(" ")"

/-- Writes the listener that a model stands for: its value is set. -/
def modelListener (d : Directive) : Gen Unit := do
  match d.exp with
  | none => text "() => \x7b\x7d"
  | some e =>
    eventFunction do
      writeGuards
      expression e.content e.offset "" ""
      text " = $event;\n"

/-- The names of an event: what is listened to, the position of its name, the text before the property, and the text before the
event. -/
structure EventName where
  event : String
  start : Nat
  propertyFront : String
  eventFront : String
  deriving DecidableEq, Repr, Inhabited

/-- The names of the event that a directive listens to. -/
def EventName.ofDirective (d : Directive) : EventName :=
  let (event, start) := match d.arg with
    | some a => (a.content, a.offset)
    | none => ("model-value", d.span.start)
  if d.name == "model" then ⟨event, start, "onUpdate:", "update:"⟩
  else
    let mark := "vue:"
    if mark.toList.isPrefixOf event.toList then
      ⟨String.ofList (event.toList.drop mark.length), start + mark.length, "onVnode-", "vnode-"⟩
    else ⟨event, start, "on-", ""⟩

/-- Whether a directive is checked against the events of its component. -/
def isEventDirective (strictModel : Bool) (d : Directive) : Bool :=
  (d.name == "on" && d.arg.any (·.isStatic)) || (strictModel && d.name == "model" && !d.arg.any fun a => !a.isStatic)

/-- Writes the declaration of the events of a component, and answers its variable. -/
def eventsOf (componentVar : String) : Gen String := do
  let name ← fresh
  let ctx ← contextVar
  text ("let " ++ name ++ "!: " ++ Names.ofKey "ResolveEmits" ++ "<typeof " ++ componentVar ++ ", typeof " ++ ctx ++ ".emit>;\n")
  pure name

/-- Writes the check of one listener against the events. -/
def checkListener (eventsVar : String) (d : Directive) : Gen Unit := do
  let n := EventName.ofDirective d
  let property := Text.camelize (n.propertyFront ++ n.event)
  let event := n.eventFront ++ n.event
  let normalized ← fresh
  let props ← propsVar
  text ("const " ++ normalized ++ ": " ++ Names.ofKey "NormalizeComponentEvent" ++ "<typeof " ++ props ++ ", typeof " ++ eventsVar ++
    ", \"" ++ property ++ "\", \"" ++ event ++ "\", \"" ++ Text.camelize event ++ "\"> = (\x7b\n")
  if d.name == "on" then
    listenerKey n.event n.start (String.ofList n.propertyFront.toList.dropLast)
    text ": "
    listenerValue d
  else
    text ("\"" ++ property ++ "\": ")
    modelListener d
  text "\x7d);\n"

/-- Writes the checks of listeners, the first of which declares the events. -/
def checkListeners (componentVar : String) : Option String → List Directive → Gen Unit
  | _, [] => pure ()
  | eventsVar, d :: ds => do
    let name ← match eventsVar with
      | some name => pure name
      | none => eventsOf componentVar
    checkListener name d
    checkListeners componentVar (some name) ds

/-- Writes the checks of the listeners of a component. -/
def componentListeners (e : Element) (componentVar : String) : Gen Unit := do
  let strict := (← read).options.flag .strictVModel
  checkListeners componentVar none (e.props.filterMap fun
    | .directive d => if isEventDirective strict d then some d else none
    | .plain _ => none)

end Generate

end TypedSfc
