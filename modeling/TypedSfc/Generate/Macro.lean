import TypedSfc.Generate.Edit
import TypedSfc.Generate.Scene

/-!
# Macros

The calls of macros in a setup script become code that a checker understands. The value of a macro gets a variable and its type
argument a name, so that the code behind can speak of both; the functions that reach into the template are given the types found
there.
-/

namespace TypedSfc

namespace Generate

namespace SetupEdits

/-- A macro whose value stands for something of the component. -/
structure Definition where
  /-- The statement around the call. -/
  statement : Span
  call : Span
  typeArg : Option Span
  /-- Whether the script gives the value to a variable. -/
  assigned : Bool
  /-- The variable that holds the value otherwise. -/
  variable' : String
  /-- The name that the type argument gets. -/
  type : String

/-- A definition whose call may stand in another call. -/
def Definition.of (a : Script.Assigned) (call : Span) (variableKey typeKey : String) : Definition :=
  ⟨a.statement, call, a.call.typeArg, a.name.isSome, Names.ofKey variableKey, Names.ofKey typeKey⟩

/-- Moves the type argument before the statement, and leaves its name in its place. -/
def Definition.typeEdits (q : SetupScript) (d : Definition) : List Edit :=
  match d.typeArg with
  | none => []
  | some t =>
    [.insert d.statement.start [.text ("type " ++ d.type ++ " = "), q.part t, .text ";\n"], ⟨t, [.text d.type]⟩]

/-- Gives the value to a variable before the statement, which takes it from there. A statement that is just the call becomes the
declaration itself. -/
def Definition.valueEdits (q : SetupScript) (d : Definition) : List Edit :=
  let declare := Piece.text ("const " ++ d.variable' ++ " = ")
  let before := q.part ⟨d.statement.start, d.call.start⟩
  if d.assigned then []
  else if d.statement = d.call then [.insert d.call.start [declare]]
  else
    match d.typeArg with
    | some t =>
      [⟨⟨d.statement.start, t.start⟩, [declare, q.part ⟨d.call.start, t.start⟩]⟩,
        ⟨⟨t.stop, d.call.stop⟩, [q.part ⟨t.stop, d.call.stop⟩, .text ";\n", before, .text d.variable']⟩]
    | none => [⟨⟨d.statement.start, d.call.stop⟩, [declare, q.part d.call, .text ";\n", before, .text d.variable']⟩]

/-- What becomes of a definition. -/
def Definition.edits (q : SetupScript) (d : Definition) : List Edit := d.typeEdits q ++ d.valueEdits q

/-- The definitions of a script. The call that gives defaults to properties stands around the one that declares them. -/
def definitions (q : SetupScript) : List Definition :=
  (match q.setup.props with
    | some p =>
      [.of p.assigned ((q.setup.withDefaults.map (·.call)).getD p.assigned.call.call) "props" "Props"]
    | none => []) ++
  (match q.setup.emits with
    | some e => [.of e e.call.call "emit" "Emit"]
    | none => []) ++
  (match q.setup.slots with
    | some s => [.of s s.call.call "slots" "Slots"]
    | none => [])

/-- Gives what is exposed a name before the call that exposes it. -/
def exposeEdits (q : SetupScript) (c : Script.CallPlaces) : List Edit :=
  let exposed := Names.ofKey "exposed"
  match c.typeArg, c.arg with
  | some t, _ =>
    [.insert c.call.start [.text ("let " ++ exposed ++ "!: "), q.part t, .text ";\n"], ⟨t, [.text ("typeof " ++ exposed)]⟩]
  | none, some a => [.insert c.call.start [.text ("const " ++ exposed ++ " = "), q.part a, .text ";\n"], ⟨a, [.text exposed]⟩]
  | none, none => [.insert c.call.start [.text ("const " ++ exposed ++ " = \x7b\x7d;\n")]]

/-- Takes the value of a call as another type. -/
def castEdits (c : Script.CallPlaces) (type : List Piece) : List Edit :=
  [.insert c.call.start [.text "("], .insert c.call.stop type]

/-- Takes the value of a call as a member of what the template shows of the component. -/
def dollarEdits (member : String) (c : Script.CallPlaces) : List Edit :=
  castEdits c [.text (" as typeof " ++ Names.ofKey "dollars" ++ "." ++ member ++ ")")]

/-- What stands for an argument once its value has gone into the type. -/
def anyArgument (a : Span) : Edit := ⟨a, [.text "\x7b\x7d as any"]⟩

/-- Takes the value of a call as a style module: the one that the argument names, or the one without a name. -/
def moduleEdits (s : Scene) (q : SetupScript) (c : Script.CallPlaces) : List Edit :=
  let modules := if s.hasType "StyleModules" then Names.ofKey "StyleModules" else "\x7b\x7d"
  match c.arg with
  | some a =>
    castEdits c [.text (" as Omit<" ++ modules ++ ", \"$style\">["), q.part a, .text "])"] ++ [anyArgument a]
  | none =>
    castEdits c [.text (" as " ++ modules ++ "["), .bounded "\"$style\"" SourceId.scriptSetup c.callee Info.checked, .text "])"]

/-- Takes the value of a call as a reference of the template, unless the call says its type itself. -/
def refEdits (s : Scene) (q : SetupScript) (c : Script.CallPlaces) : List Edit :=
  if c.typeArg.isSome then []
  else
    let start := Piece.text (" as Readonly<" ++ s.ofLib "ShallowRef<")
    let stop := Piece.text " | null>>)"
    match c.arg.filter fun _ => s.hasType "TemplateRefs" with
    | some a =>
      anyArgument a :: castEdits c [start, .text (Names.ofKey "TemplateRefs" ++ "["), q.part a, .text "]", stop]
    | none => castEdits c [start, .text "unknown", stop]

/-- All edits of a setup script. -/
def all (s : Scene) (q : SetupScript) : List Edit :=
  (definitions q).flatMap (Definition.edits q) ++
  (q.setup.expose.map (exposeEdits q)).getD [] ++
  (if s.options.flag .inferTemplateDollarAttrs then q.setup.attrs.flatMap (dollarEdits "$attrs") else []) ++
  q.setup.cssModules.flatMap (moduleEdits s q) ++
  (if s.options.flag .inferTemplateDollarSlots then q.setup.slotUses.flatMap (dollarEdits "$slots") else []) ++
  q.setup.templateRefs.flatMap fun r => refEdits s q r.call

end SetupEdits

end Generate

end TypedSfc
