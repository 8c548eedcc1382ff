import TypedSfc.Generate.Listener

/-!
# Properties and directives of elements

The properties of an element are written as the entries of an object literal, so that they are checked against what the element takes.
Expressions that cannot be written as an entry are left over, and are checked on lines of their own.
-/

namespace TypedSfc

namespace Generate

open Markup (Attribute Directive Element Property)

/-- An expression that is checked on a line of its own, between two texts. -/
structure Loose where
  code : String
  offset : Nat
  front : String
  back : String
  deriving DecidableEq, Repr, Inhabited

/-- An expression in parentheses. -/
def Loose.ofExpression (e : Markup.Expression) : Loose := ⟨e.content, e.offset, "(", ")"⟩

/-- Writes expressions on lines of their own. -/
def writeLoose : List Loose → Gen Unit
  | [] => pure ()
  | l :: ls => do
    expression l.code l.offset l.front l.back
    text ";\n"
    writeLoose ls

/-! ## Listeners among the properties -/

/-- Writes what a listener says about the properties. -/
def listenerEntry (isComponent : Bool) (d : Directive) : Gen (List Loose) := do
  match d.arg, d.exp with
  | some a, exp =>
    if a.isStatic then
      if isComponent then text ("...\x7b \"" ++ Text.camelize ("on-" ++ a.content) ++ "\": \x7b\x7d as any \x7d,")
      else
        text "...\x7b"
        listenerKey a.content a.offset "on"
        text ": "
        listenerValue d
        text "\x7d,"
      text "\n"
      pure []
    else
      match exp with
      | some e => pure [⟨"[" ++ a.content ++ "]", a.offset - 1, "(", ")"⟩, ⟨e.content, e.offset, "() => \x7b", "\x7d"⟩]
      | none => pure []
  | none, some e => pure [Loose.ofExpression e]
  | none, none => pure []

/-- Writes what the listeners say about the properties. -/
def listenerEntries (isComponent : Bool) : List Property → Gen (List Loose)
  | [] => pure []
  | .directive d :: ps => do
    let first ← if d.name == "on" then listenerEntry isComponent d else pure []
    let more ← listenerEntries isComponent ps
    pure (first ++ more)
  | .plain _ :: ps => listenerEntries isComponent ps

/-! ## Values -/

/-- The name that a binding without a value reads, with its argument. -/
def shorthand? (d : Directive) : Option (Markup.Expression × String) :=
  d.arg.bind fun a =>
    let name := Text.camelize a.content
    if d.name == "bind" && a.isStatic && Text.isPlainIdent name then some (a, name) else none

/-- Writes the value of a binding. Without one the variable of the same name is read. -/
def bindingValue (d : Directive) : Gen Unit := do
  match d.exp with
  | some e => expression e.content e.offset "(" ")"
  | none =>
    match shorthand? d with
    | none => text "\x7b\x7d"
    | some (a, name) =>
      let own := camelized a.content a.offset Info.checked
      if (← get).isDeclared name then own
      else if (← read).setupRefs.contains name then
        own
        text ".value"
      else
        access name
        text (Names.ofKey "ctx" ++ ".")
        own

/-! ## Models -/

/-- The rule of a model for a tag. -/
def ruleFor (e : Element) (tags : Keyed Options.Rule) : Option Options.Rule :=
  (tags.get? e.tag).or (tags.get? (Text.hyphenate e.tag))

/-- The value of a static attribute. -/
def attributeValue? (e : Element) (name : String) : Option String :=
  ((e.attr name).bind (·.value)).map (·.content)

/-- The property that a model without an argument is bound to; none when the element has no such property. Rules about attributes come
before rules about all elements of a tag. -/
def modelProperty (o : Options) (e : Element) : Option String :=
  let named := fun (model : String) => if model.isEmpty then none else some model
  let byAttributes := o.modelNames.entries.find? fun m =>
    match ruleFor e m.2 with
    | some (.always _) | none => false
    | some r => r.holds (attributeValue? e)
  let byTag := o.modelNames.entries.find? fun m => ruleFor e m.2 == some (.always true)
  match byAttributes.or byTag with
  | some m => named m.1
  | none => some "modelValue"

/-! ## Entries -/

/-- Whether the name of a property is written in camelCase. -/
def isCamelized (e : Element) (htmlAttributes : List String) (isFixed : Bool) (name : String) : Bool :=
  (e.kind == .component || e.kind == .slot) && isFixed && Text.hyphenateAttr name == name &&
    !Text.matchesOne htmlAttributes name

/-- Runs a generator of an entry; the entries that elements merge are spread. -/
def spreading (name : String) (g : Gen Unit) : Gen Unit := do
  let spread := name == "style" || name == "class"
  if spread then text "...\x7b "
  g
  if spread then text " \x7d"
  text ",\n"

/-- Writes the modifiers of a directive under a name. -/
def modifiers (d : Directive) (name : String) : Gen Unit := do
  match d.modifiers, d.modifiers.getLast? with
  | first :: _, some last => do
    bounded (first.offset - 1) last.stop Info.checked name
    text ": \x7b "
    for m in d.modifiers do
      objectKey m.content m.offset Info.checked false false
      text ": true, "
    text "\x7d, "
  | _, _ => pure ()

/-- The name of a property that a directive binds; one that is computed has brackets. -/
def boundName (o : Options) (e : Element) (d : Directive) : Option String :=
  match d.arg with
  | some a => some (if a.isStatic then a.content else "[" ++ a.content ++ "]")
  | none => modelProperty o e

/-- Where the argument of a directive stands, with its brackets if it has them; the directive without one. -/
def argumentSpan (d : Directive) : Span :=
  match d.arg with
  | some a => if a.isStatic then a.span else ⟨a.offset - 1, a.stop + 1⟩
  | none => d.span

/-- The property under which the modifiers of a model are handed on. -/
def modifiersName (d : Directive) (name : String) : String :=
  match d.arg with
  | some a =>
    if a.isStatic then Text.camelize name ++ "Modifiers"
    else "[" ++ Names.ofKey "tryAsConstant" ++ "(\x60$\x7b" ++ a.content ++ "\x7dModifiers\x60)]"
  | none => "modelModifiers"

/-- Writes the entry of a bound property. -/
def boundEntry (e : Element) (d : Directive) (name : String) (i : Info) : Gen Unit := do
  let setting ← read
  spreading name do
    let b ← openAt d.span.start Info.checked
    match d.arg with
    | some a =>
      let camelize := isCamelized e setting.options.htmlAttributes a.isStatic name
      objectKey name (argumentSpan d).start i camelize false
    | none => bounded d.span.start (d.span.start + "v-model".length) Info.checked name
    text ": "
    let v ← openAt (argumentSpan d).start Info.checked
    bindingValue d
    close v (argumentSpan d).stop
    close b d.span.stop
  if e.kind == .component && d.name == "model" && !d.modifiers.isEmpty then
    modifiers d (modifiersName d name)
    text "\n"

/-- Writes the entry of a binding or a model, unless its name is that of data. -/
def bindingEntry (e : Element) (d : Directive) (i : Info) : Gen (List Loose) := do
  let o := (← read).options
  match boundName o e d with
  | some name =>
    if Text.matchesOne o.dataAttributes name then pure (d.exp.toList.map Loose.ofExpression)
    else
      boundEntry e d name i
      pure []
  | none => pure (d.exp.toList.map Loose.ofExpression)

/-- The quotes around the value of an attribute. -/
def quoteOf (source : List Char) (v : Markup.AttributeValue) : String :=
  if v.quoted && 0 < v.offset && Text.between (v.offset - 1) v.offset source == ['\x27'] then "'" else "\""

/-- Writes the entry of an attribute, unless its name is that of data. The value of `style` is not looked at. -/
def attributeEntry (e : Element) (a : Attribute) (i : Info) : Gen Unit := do
  let setting ← read
  if Text.matchesOne setting.options.dataAttributes a.name then pure ()
  else
    spreading a.name do
      let b ← openAt a.span.start Info.checked
      objectKey a.name a.span.start i (isCamelized e setting.options.htmlAttributes true a.name) false
      text ": "
      if a.name == "style" then text "\x7b\x7d"
      else
        match a.value with
        | some v =>
          let quote := quoteOf setting.source v
          text quote
          onCode (·.literal v.content SourceId.template v.offset Info.checked)
          text quote
        | none => text "true"
      close b a.span.stop

/-- Writes the entry of an object of properties, unless it holds those that the component was given. -/
def spreadEntry (d : Directive) : Gen (List Loose) := do
  match d.exp with
  | none => pure []
  | some e =>
    if e.content == "$attrs" then pure [Loose.ofExpression e]
    else
      let b ← openAt d.span.start Info.checked
      text "..."
      bindingValue d
      close b e.stop
      text ",\n"
      pure []

/-- Writes the entry of a property that is no listener. -/
def entry (e : Element) (i : Info) : Property → Gen (List Loose)
  | .plain a => do
    attributeEntry e a i
    pure []
  | .directive d =>
    if d.name == "model" || (d.name == "bind" && d.arg.isSome) then bindingEntry e d i
    else if d.name == "bind" then spreadEntry d
    else pure []

/-- Writes the entries of properties that are no listeners. -/
def valueEntries (e : Element) (i : Info) : List Property → Gen (List Loose)
  | [] => pure []
  | p :: ps => do
    let first ← entry e i p
    let more ← valueEntries e i ps
    pure (first ++ more)

/-- Writes the entries of some properties of an element, the listeners first; what cannot be written there is left over. -/
def entries (e : Element) (ps : List Property) (strict : Bool) : Gen (List Loose) := do
  let listeners ← listenerEntries (e.kind == .component) ps
  let values ← valueEntries e (Info.propertyOf strict) ps
  pure (listeners ++ values)

/-! ## Directives -/

/-- The directives that are known to the framework. -/
def builtinDirectives : List String :=
  ["bind", "cloak", "else-if", "else", "for", "html", "if", "model", "on", "once", "pre", "show", "slot", "text", "memo"]

/-- Writes the variable of a directive. -/
def directiveName (d : Directive) : Gen Unit := do
  let name := "v-" ++ d.name
  let isBuiltin := builtinDirectives.contains d.name
  let strict := (← read).options.flag .checkUnknownDirectives
  let b ← openAt d.span.start Info.checked
  text (Names.ofKey "directives" ++ ".")
  camelized name d.span.start (if strict && !isBuiltin then Info.checked else Info.silent)
  close b (d.span.start + name.utf8ByteSize)
  if !isBuiltin then access (Text.camelize name)

/-- Writes the argument of a directive, if it has one. -/
def directiveArgument (d : Directive) : Gen Unit := do
  match d.arg with
  | none => pure ()
  | some a =>
    bounded a.offset a.stop Info.checked "arg"
    text ": "
    if a.isStatic then quotedKey a.content a.offset Info.checked
    else expression a.content a.offset "(" ")"
    text ", "

/-- Writes the value of a directive, if it has one. -/
def directiveValue (d : Directive) : Gen Unit := do
  match d.exp with
  | none => pure ()
  | some e =>
    bounded e.offset e.stop Info.checked "value"
    text ": "
    bindingValue d

/-- Writes the check of a directive. -/
def checkDirective (d : Directive) : Gen Unit := do
  let lib := (← read).options.lib
  let b ← openAt d.span.start Info.checked
  text (Names.ofKey "asFunctionalDirective" ++ "(")
  directiveName d
  text (", \x7b\x7d as import(\"" ++ lib ++ "\").ObjectDirective)(null!, \x7b ..." ++ Names.ofKey "directiveBindingRestFields" ++ ", ")
  directiveArgument d
  modifiers d "modifiers"
  directiveValue d
  text " \x7d, null!, null!)"
  close b d.span.stop
  text ";\n"

/-- Writes the checks of the directives of an element that have no rule of their own. -/
def checkDirectives : List Property → Gen Unit
  | [] => pure ()
  | .plain _ :: ps => checkDirectives ps
  | .directive d :: ps => do
    if !(["slot", "on", "model", "bind"].contains d.name) then checkDirective d
    checkDirectives ps

end Generate

end TypedSfc
