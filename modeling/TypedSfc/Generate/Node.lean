import TypedSfc.Generate.Element

/-!
# Nodes

Every node of the template is written in order. A chain becomes an `if` statement, of which each branch knows what holds in it; a loop
becomes a `for` statement, whose names are declared before what it runs over is written.
-/

namespace TypedSfc

namespace Generate

open Markup (Branch Element LoopHead Node TagKind)

/-! ## Interpolations -/

/-- The number of ASCII blanks at the start of a text. -/
def blanks (cs : List Char) : Nat := (cs.takeWhile Text.isAsciiBlank).length

/-- Writes an interpolation with the blanks around its expression. -/
def interpolation (x : Markup.Expression) : Gen Unit := do
  let source := (← read).source
  let start := x.offset - blanks (Text.between 0 x.offset source).reverse
  let stop := x.stop + blanks (Text.after x.stop source)
  expression (String.ofList (Text.between start stop source)) start "(" ");\n"

/-! ## Chains -/

/-- The keyword of a branch. -/
def branchWord (isFirst hasCondition : Bool) : String :=
  if isFirst then "if " else if hasCondition then "else if " else "else "

/-- Writes a condition, and makes it a guard. -/
def condition (x : Markup.Expression) : Gen Unit := do
  let (code, _) ← captured (expression x.content x.offset "(" ")")
  modify fun s => { s with guards := s.guards ++ [code.toText] }
  onCode (·.append code)
  text " "

/-- Guards of which the last does not hold. -/
def negateLast : List String → List String
  | [] => []
  | [g] => ["!" ++ g]
  | g :: gs => g :: negateLast gs

/-- Writes a branch of a chain. Its condition holds in it, and does not hold in the branches after it. -/
def branch (isFirst : Bool) (x : Option Markup.Expression) (inner : Gen Unit) : Gen Unit := do
  text (branchWord isFirst x.isSome)
  match x with
  | some x => condition x
  | none => pure ()
  text "\x7b\n"
  inner
  text "\x7d\n"
  if x.isSome then modify fun s => { s with guards := negateLast s.guards }

/-- Runs a generator, and takes back the guards that it adds. -/
def keepingGuards (g : Gen Unit) : Gen Unit := do
  let depth := (← get).guards.length
  g
  modify fun s => { s with guards := s.guards.take depth }

/-! ## Loops -/

/-- The names that a list of aliases declares. -/
def aliasNames (reader : Script.Reader) (aliases : String) : List String :=
  match (reader ("const [" ++ aliases ++ "] = [];") "ts").items with
  | some (.stmt t :: _) => t.variables.flatMap fun d => d.declared.map (·.id.name)
  | _ => []

/-- Writes the names of a loop, and declares them. -/
def loopNames (h : LoopHead) : Gen Unit := do
  match h.aliasSpan with
  | none => pure ()
  | some span =>
    let setting ← read
    let aliases := String.ofList (Text.between span.start span.stop setting.source)
    declare (aliasNames setting.reader aliases)
    mapped aliases SourceId.template span.start Info.checked

/-- Runs a generator as the body of a loop. -/
def asLoopBody (g : Gen Unit) : Gen Unit := do
  let outer := (← get).inLoop
  modify fun s => { s with inLoop := true }
  g
  modify fun s => { s with inLoop := outer }

/-- Writes a loop. -/
def loop (h : LoopHead) (inner : Gen Unit) : Gen Unit :=
  inScope do
    text "for (const ["
    loopNames h
    text "] of "
    match h.source with
    | some x =>
      text (Names.ofKey "vFor" ++ "(")
      expression x.content x.offset "(" ")"
      text "!)"
    | none => text "\x7b\x7d as any"
    text ") \x7b\n"
    asLoopBody inner
    text "\x7d\n"

/-! ## All nodes -/

/-- Writes an element, and what stands in it. -/
def element (e : Element) (hasChildren : Bool) (inner : Gen Unit) : Gen Unit := do
  match e.kind with
  | .slot => outlet e inner
  | .native => native e inner
  | .component => component e hasChildren inner
  | .template =>
    match e.directive "slot" with
    | none => group e inner
    | some d => if (← get).components.isEmpty then group e inner else slotContent (some d) (← contextVar) inner

mutual

/-- Writes a node. -/
def node : Node → Gen Unit
  | .comment span data => keepComment span data
  | .text _ _ => asNode (pure ())
  | .interpolation _ x => asNode (interpolation x)
  | .element e children => asNode (element e (!children.isEmpty) (nodes children))
  | .loop _ h children => asNode (loop h (nodes children))
  | .chain _ bs => asNode (keepingGuards (branches true bs))

/-- Writes nodes in order. -/
def nodes : List Node → Gen Unit
  | [] => pure ()
  | n :: ns => do
    node n
    nodes ns

/-- Writes the branches of a chain, of which the first may be among them. -/
def branches (isFirst : Bool) : List Branch → Gen Unit
  | [] => pure ()
  | .mk _ x children :: bs => do
    branch isFirst x (nodes children)
    branches false bs

end

/-! ## Roots -/

/-- Whether a node may be a root: it is neither a comment nor blank text. -/
def isMeaningful : Node → Bool
  | .comment .. => false
  | .text _ data => !Text.isBlank data.toList
  | _ => true

mutual

/-- Where the root elements of a node start that is the only one of its list; components that hand their attributes on are looked
into. -/
def rootsOf (fallthroughNames : List String) : Node → List (Option Nat)
  | .chain _ bs => branchRoots fallthroughNames bs
  | .element e children =>
    some e.span.start ::
      if fallthroughNames.contains (Text.hyphenate e.tag) then
        if (children.filter isMeaningful).length = 1 then onlyRoots fallthroughNames children else [none]
      else []
  | _ => []

/-- Where the root elements of the meaningful nodes of a list start. -/
def onlyRoots (fallthroughNames : List String) : List Node → List (Option Nat)
  | [] => []
  | n :: ns => if isMeaningful n then rootsOf fallthroughNames n else onlyRoots fallthroughNames ns

/-- Where the root elements of the branches of a chain start. -/
def branchRoots (fallthroughNames : List String) : List Branch → List (Option Nat)
  | [] => []
  | .mk _ _ children :: bs =>
    (if (children.filter isMeaningful).length = 1 then onlyRoots fallthroughNames children else [none]) ++
      branchRoots fallthroughNames bs

end

/-- Where the root elements of a template start; none is among them if some place has several. -/
def rootsOfAll (fallthroughNames : List String) (ns : List Node) : List (Option Nat) :=
  if (ns.filter isMeaningful).length = 1 then onlyRoots fallthroughNames ns else [none]

end Generate

end TypedSfc
