import TypedSfc.Generate.Piece
import TypedSfc.Markup.Node
import TypedSfc.Options.Basic
import TypedSfc.Script.Module
import TypedSfc.Text.Glob
import TypedSfc.Text.Space

/-!
# The state of a generator

A generator of template or style code is told about the component around it, writes code, and notes what the template shows of the
component. Names that the template declares live in scopes; directive comments live in frames, one for each node that is open.
-/

namespace TypedSfc

namespace Generate

open Markup (Node)

/-- What a generator is told about the component. -/
structure Setting where
  options : Options
  /-- What reads the expressions of the template. -/
  reader : Script.Reader
  /-- The text of the template. -/
  source : List Char
  /-- The constants at the top level of the setup script. -/
  setupConsts : List String
  /-- The variables of the setup script that are read through `.value`. -/
  setupRefs : List String
  hasDefineSlots : Bool
  /-- The variable that holds the properties. -/
  propsName : Option String
  /-- The variable that holds the slots. -/
  slotsName : Option String
  /-- The name of the component itself. -/
  componentName : String
  inheritAttrs : Bool
  /-- The members with a `$` whose types are inferred. -/
  dollars : List String
  /-- Where the elements start that are the only root of the template; none stands for a place with several roots. -/
  roots : List (Option Nat)

/-- The type arguments that a comment gives to a component. -/
structure Generic where
  content : String
  offset : Nat
  deriving DecidableEq, Repr, Inhabited

/-- The number of an expectation, and the place of the comment that states it. -/
structure Expectation where
  number : Nat
  span : Span
  deriving DecidableEq, Repr, Inhabited

/-- What the directive comments before a node say. -/
structure Frame where
  ignores : Bool := false
  expects : Option Expectation := none
  generic : Option Generic := none
  deriving DecidableEq, Repr, Inhabited

/-- The effect of a frame, if it has one. -/
def Frame.effect? (f : Frame) : Option Effect :=
  if f.ignores then some .silence else f.expects.map fun e => .expect e.number

/-- The effect of the innermost frame that has one. -/
def effectOf (fs : List Frame) : Option Effect := fs.findSome? Frame.effect?

/-- A component whose children are written: its variables, and whether they were used. -/
structure ComponentScope where
  contextVar : String
  propsVar : String
  contextUsed : Bool := false
  propsUsed : Bool := false
  deriving DecidableEq, Repr, Inhabited

/-- An outlet of a slot with a fixed name; the default slot may have no place. -/
structure SlotOutlet where
  name : String
  offset : Option Nat
  propsVar : String
  deriving DecidableEq, Repr, Inhabited

/-- An outlet of a slot whose name is computed. -/
structure DynamicOutlet where
  nameVar : String
  propsVar : String
  deriving DecidableEq, Repr, Inhabited

/-- What a reference of the template refers to. -/
structure RefTarget where
  type : String
  offset : Nat
  deriving DecidableEq, Repr, Inhabited

/-- The state of a generator. -/
structure State where
  code : Code := {}
  /-- The names that are declared, by scopes, the innermost first. -/
  scopes : List (List String) := []
  /-- The frames of the nodes that are open, the innermost first. -/
  frames : List Frame := []
  /-- The comments before the next node: places and texts. -/
  pending : List (Span × String) := []
  nextTemporary : Nat := 0
  nextExpectation : Nat := 0
  inLoop : Bool := false
  /-- The components that are open, the innermost first. -/
  components : List ComponentScope := []
  /-- The conditions that hold, as they are written, the outermost first. -/
  guards : List String := []
  /-- The members of the component that were read, in order. -/
  accessed : List String := []
  /-- Variables of blocks, with the names under which all can see them. -/
  hoisted : List (String × String) := []
  /-- The types of the root elements. -/
  rootTypes : List String := []
  /-- What the attributes of the component are handed to. -/
  inheritors : List String := []
  slots : List SlotOutlet := []
  dynamicSlots : List DynamicOutlet := []
  /-- The references of the template, by their names. -/
  refs : List (String × List RefTarget) := []
  /-- The tags that are components. -/
  componentTags : List String := []
  /-- The types that were declared. -/
  types : List String := []
  /-- Whether a text was to be cut where no character starts. A program that cuts so fails there, so what is written then is not used. -/
  isCut : Bool := false
  deriving Inhabited

/-- A generator. -/
abbrev Gen := ReaderT Setting (StateM State)

/-! ## Writing -/

/-- Changes the code. -/
def onCode (f : Code → Code) : Gen Unit := modify fun s => { s with code := f s.code }

/-- Writes text of its own. -/
def text (t : String) : Gen Unit := onCode (·.text t)

/-- Writes text that stands for a place of a source. -/
def mapped (t : String) (source : SourceId) (offset : Nat) (i : Info) : Gen Unit := onCode (·.mapped t source offset i)

/-- Opens a group at a place of the template. -/
def openAt (start : Nat) (i : Info) : Gen Boundary := do
  let s ← get
  let (b, c) := s.code.opened SourceId.template start i
  set { s with code := c }
  pure b

/-- Closes a group. -/
def close (b : Boundary) (stop : Nat) : Gen Unit := onCode (·.closed b stop)

/-- Writes text of its own in a group around a range of the template. -/
def bounded (start stop : Nat) (i : Info) (t : String) : Gen Unit := onCode (·.bounded SourceId.template start stop i t)

/-- Writes a name of the template in camelCase. -/
def camelized (name : String) (offset : Nat) (i : Info) : Gen Unit := onCode (·.camelized name SourceId.template offset i)

/-- Writes a property key in quotes. -/
def quotedKey (key : String) (offset : Nat) (i : Info) : Gen Unit := onCode (·.quotedKeyAt key SourceId.template offset i)

/-- Runs a generator on an empty buffer, and answers what it wrote with what it answered. -/
def captured {α : Type} (g : Gen α) : Gen (Code × α) := do
  let outer := (← get).code
  modify fun s => { s with code := outer.continueFrom }
  let a ← g
  let inner := (← get).code
  modify fun s => { s with code := outer.absorbTokens inner }
  pure (inner, a)

/-- Notes whether a text can be cut out between two positions. -/
def checkCut (start stop : Nat) (cs : List Char) : Gen Unit :=
  modify fun s => { s with isCut := (Text.slice start stop cs).isNone || s.isCut }

/-! ## Names -/

/-- Runs a generator in a scope of its own, in which some names are declared. -/
def inScope (g : Gen Unit) : Gen Unit := do
  modify fun s => { s with scopes := [] :: s.scopes }
  g
  modify fun s => { s with scopes := s.scopes.tail }

/-- Declares names in the innermost scope. -/
def declare (names : List String) : Gen Unit :=
  modify fun s => match s.scopes with
    | [] => s
    | scope :: outer => { s with scopes := (names ++ scope) :: outer }

/-- Whether a name is declared in the template. -/
def State.isDeclared (s : State) (name : String) : Bool := s.scopes.any (·.contains name)

/-- Notes that a member of the component is read. -/
def access (name : String) : Gen Unit := modify fun s => { s with accessed := addNew name s.accessed }

/-- The name of a temporary that was not used before. -/
def fresh : Gen String := do
  let s ← get
  set { s with nextTemporary := s.nextTemporary + 1 }
  pure (Names.temporary s.nextTemporary)

/-- The name under which all can see a variable of a block. -/
def hoist (name : String) : Gen String := do
  match (← get).hoisted.lookup name with
  | some h => pure h
  | none => do
    let h ← fresh
    modify fun s => { s with hoisted := s.hoisted ++ [(name, h)] }
    pure h

/-- Entries with one more value under a name. -/
def underName {α : Type} (name : String) (a : α) : List (String × List α) → List (String × List α)
  | [] => [(name, [a])]
  | e :: es => if e.1 = name then (e.1, e.2 ++ [a]) :: es else e :: underName name a es

/-- Notes a reference of the template. -/
def noteRef (name type : String) (offset : Nat) : Gen Unit :=
  modify fun s => { s with refs := underName name ⟨type, offset⟩ s.refs }

/-- Notes that a type is declared. -/
def noteType (name : String) : Gen Unit := modify fun s => { s with types := addNew name s.types }

/-! ## Components and guards -/

/-- Writes a return for the case that a guard does not hold, for each guard. -/
def writeGuards : Gen Unit := do
  for g in (← get).guards do
    text ("if (!" ++ g ++ ") return;\n")

/-- Marks the innermost component, and answers something of it; outside any component there is nothing to be had. -/
def ofComponent (mark : ComponentScope → ComponentScope) (f : ComponentScope → String) : Gen String := do
  let s ← get
  match s.components with
  | [] => pure "\x7b\x7d"
  | c :: outer => do
    set { s with components := mark c :: outer }
    pure (f c)

/-- The context variable of the innermost component, which is used then. -/
def contextVar : Gen String := ofComponent (fun c => { c with contextUsed := true }) (·.contextVar)

/-- The variable of the properties of the innermost component, which is used then. -/
def propsVar : Gen String := ofComponent (fun c => { c with propsUsed := true }) (·.propsVar)

/-- Runs a generator inside a component, and tells which of its variables were used. -/
def inComponent (contextVar propsVar : String) (g : Gen Unit) : Gen (Bool × Bool) := do
  modify fun s => { s with components := { contextVar := contextVar, propsVar := propsVar } :: s.components }
  g
  let s ← get
  match s.components with
  | [] => pure (false, false)
  | c :: outer => do
    set { s with components := outer }
    pure (c.contextUsed, c.propsUsed)

/-- The type arguments that a comment gives to the current node. -/
def currentGeneric : Gen (Option Generic) := do
  pure ((← get).frames.head?.bind (·.generic))

/-! ## Directive comments -/

/-- The characters of the name of a directive comment. -/
def isDirectiveChar (c : Char) : Bool := c.isAlphanum || c == '_' || c == '-'

/-- The name and the content of a directive comment. -/
def directiveComment? (data : String) : Option (String × List Char) :=
  let cs := Text.trimStart data.toList
  let mark := "@vue-".toList
  if mark.isPrefixOf cs then
    let rest := cs.drop mark.length
    let name := rest.takeWhile isDirectiveChar
    if name.isEmpty then none else some (String.ofList name, rest.dropWhile isDirectiveChar)
  else none

/-- The type arguments in a comment: what stands between its braces. -/
def genericOf? (span : Span) (data : String) (content : List Char) : Option Generic :=
  match Text.trim content with
  | '{' :: inner =>
    if inner.getLast? == some '}' then
      (Text.find ['{'] data.toList).map fun brace => ⟨String.ofList inner.dropLast, span.start + "<!--".length + brace + 1⟩
    else none
  | _ => none

/-- Reads the comments before a node, the first expectation having a number: the next number, and their frame unless one says that
the node is to be passed over. -/
def frameOf (next : Nat) (f : Frame) : List (Span × String) → Nat × Option Frame
  | [] => (next, some f)
  | (span, data) :: cs =>
    match directiveComment? data with
    | none => frameOf next f cs
    | some (name, content) =>
      match name with
      | "skip" => (next, none)
      | "ignore" => frameOf next { f with ignores := true } cs
      | "expect-error" => frameOf (next + 1) { f with expects := some ⟨next, span⟩ } cs
      | "generic" => frameOf next { f with generic := (genericOf? span data content).or f.generic } cs
      | _ => frameOf next f cs

/-- Opens the frames given, and puts their effect in force. -/
def State.withFrames (s : State) (fs : List Frame) : State :=
  { s with frames := fs, code := s.code.setEffect (effectOf fs) }

/-- Takes the comments before a node, and opens its frame; false when the node is to be passed over. -/
def enter : Gen Bool := do
  let s ← get
  let (next, f) := frameOf s.nextExpectation {} s.pending
  let s := { s with pending := [], nextExpectation := next }
  match f with
  | none => do
    set s
    pure false
  | some f => do
    set (s.withFrames (f :: s.frames))
    pure true

/-- Closes the frame of a node, and writes the marker of its expectation. -/
def leave : Gen Unit := do
  let s ← get
  set ({ s with pending := [] }.withFrames s.frames.tail)
  match s.frames.head?.bind (·.expects) with
  | some e => do
    bounded e.span.start e.span.stop (Info.ofPolicy (.unused e.number none)) "// @ts-expect-error"
    text "\n;\n"
  | none => pure ()

/-- Runs a generator as that of a node. -/
def asNode (g : Gen Unit) : Gen Unit := do
  if ← enter then
    g
    leave

/-- Keeps a comment for the next node. -/
def keepComment (span : Span) (data : String) : Gen Unit :=
  modify fun s => { s with pending := s.pending ++ [(span, data)] }

end Generate

end TypedSfc
