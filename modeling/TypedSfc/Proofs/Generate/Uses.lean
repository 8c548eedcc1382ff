import TypedSfc.Generate.Style
import TypedSfc.Proofs.Generate.Waiting
import TypedSfc.Proofs.Generate.Writing

/-!
# What reads names of a template

Each expression of a template stands in the scopes of the loops, slots and listeners around it, and its free names are resolved there.
The uses of a template are told from its tree, with the scopes passed down into it: nothing is pushed or popped. A loop and the filling
of a slot put a scope around what stands in them, and a listener of several statements puts one around itself.

What a loop runs over is written behind the names of the loop. It stands in their scope, unlike the pattern of a slot, whose names are
declared behind it. The pattern of a loop is no use: it is written as it stands.
-/

namespace TypedSfc

namespace Generate

open Markup (Attribute Branch Directive Element Fragment LoopHead Node Property)
open Script (Reference)

/-! ## Uses -/

/-- Whether a name stays as it is in some scopes. -/
def keptIn (scopes : List (List String)) (name : String) : Bool :=
  scopes.any (·.contains name) || allowedGlobals.contains name || literalWords.contains name || Names.isSynthetic name

/-- What reads names. -/
inductive Reading where
  /-- An expression that is written between two texts. -/
  | expression (source : SourceId) (code : String) (start : Nat) (info : Info) (front back : String)
  /-- The parameters of a slot, which are written as a pattern. -/
  | parameters (e : Markup.Expression)
  /-- A binding without a value, which reads the name of its argument. -/
  | shorthand (arg : Markup.Expression) (name : String)
  /-- A reference or a directive. It reads a member of the component whatever the template declares. -/
  | member (name : String)

/-- What reads names, and the scopes in which it stands, the innermost first. -/
structure Use where
  reading : Reading
  scopes : List (List String)

/-- The free names of an expression that do not stay as they are. -/
def unresolved (r : Setting) (scopes : List (List String)) (front code back : String) : List Reference :=
  (namesIn r.reader front code back).filter fun n => !keptIn scopes n.name

/-- The members of the component that free names read. References of the setup script and members with a `$` are none. -/
def membersOf (r : Setting) (ns : List Reference) : List String :=
  ns.flatMap fun n => if r.setupRefs.contains n.name || r.dollars.contains n.name then [] else [n.name]

/-- The text that the parameters of a slot are read from. -/
def parametersText (x : Markup.Expression) : String := "(" ++ x.content ++ emptyBody

/-- The parameters of a slot as a pattern, from the code of the function that they are read from. -/
def parametersCode (x : Markup.Expression) (ps : List Script.Pat) (c : Code) : Code :=
  let start := x.offset - 1
  let stop := start + (parametersText x).utf8ByteSize
  let opened := (c.replaceRange SourceId.template start (start + 1) "").2
  commentTypes start (ps.map typeOf?) (opened.replaceRange SourceId.template (stop - emptyBody.length) stop "").2

/-- The segments of an expression: the free names that do not stay as they are have their owner put before them, or their value taken. -/
def expressionSegments (r : Setting) (e : Option Effect) (scopes : List (List String)) (source : SourceId) (code : String) (start : Nat)
    (info : Info) (front back : String) : List Segment :=
  (strands r (Placement.under ⟨source, start, info, front.utf8ByteSize, code.utf8ByteSize⟩ e) (front ++ code ++ back).toList 0
    (unresolved r scopes front code back)).map Strand.segment

/-- Whether a piece at `pos` cannot be cut behind its mapped part, or not in front of it. -/
def pieceCuts (p : Placement) (t : List Char) (pos : Nat) : Bool :=
  (Text.slice 0 (p.headEnd pos (Text.size t)) t).isNone || (Text.slice 0 (p.innerEnd pos (Text.size t)) t).isNone

/-- Whether the piece between two positions cannot be cut out of the whole text, or cannot itself be cut. -/
def cutsOut (p : Placement) (whole : List Char) (start stop : Nat) : Bool :=
  pieceCuts p (Text.between start stop whole) start || (Text.slice start stop whole).isNone

/-- Whether a text is cut where no character starts when it is written from `prev` on, one free name after another: up to where a name
stands, and on from where it would end if the text spelled it as it is. -/
def namesCut (p : Placement) (whole : List Char) : Nat → List Reference → Bool
  | prev, [] => decide (prev < Text.size whole) && cutsOut p whole prev (Text.size whole)
  | prev, n :: ns =>
    namesCut p whole (stopOf n) ns || (pieceCuts p n.name.toList n.offset ||
      cutsOut p whole prev (if n.shorthand then stopOf n else n.offset))

/-- Whether an expression is cut where no character starts when it is written with its free names. -/
def expressionCut (r : Setting) (scopes : List (List String)) (source : SourceId) (code : String) (start : Nat) (info : Info)
    (front back : String) : Bool :=
  namesCut ⟨source, start, info, front.utf8ByteSize, code.utf8ByteSize⟩ (front ++ code ++ back).toList 0
    (unresolved r scopes front code back)

namespace Use

/-- Whether what a use is written from is cut where no character starts. -/
def isCut (r : Setting) (u : Use) : Bool :=
  match u.reading with
  | .expression source code start info front back => expressionCut r u.scopes source code start info front back
  | .parameters x => expressionCut r u.scopes SourceId.template (parametersText x) (x.offset - 1) Info.checked "" ""
  | .shorthand _ _ | .member _ => false

/-- The members of the component that a use reads. -/
def reads (r : Setting) (u : Use) : List String :=
  match u.reading with
  | .expression _ code _ _ front back => membersOf r (unresolved r u.scopes front code back)
  | .parameters x => membersOf r (unresolved r u.scopes "" (parametersText x) "")
  | .shorthand _ name => if u.scopes.any (·.contains name) || r.setupRefs.contains name then [] else [name]
  | .member name => [name]

/-- Whether segments are what a use is written as, under some effect. -/
def Makes (r : Setting) (u : Use) (ss : List Segment) : Prop :=
  match u.reading with
  | .expression source code start info front back => ∃ e, ss = expressionSegments r e u.scopes source code start info front back
  | .parameters x => ∃ ps ∈ parametersOf? r.reader (parametersText x), ∃ (e : Option Effect) (c : Code),
      c.segments = expressionSegments r e u.scopes SourceId.template (parametersText x) (x.offset - 1) Info.checked "" "" ∧
        ss = (parametersCode x ps c).segments
  | .shorthand arg name => ∃ c : Code, c.segments = [] ∧
      let own := (c.camelized arg.content SourceId.template arg.offset Info.checked).segments
      ss = if u.scopes.any (·.contains name) then own
        else if r.setupRefs.contains name then own ++ [.text ".value"]
        else .text (Names.ofKey "ctx" ++ ".") :: own
  | .member _ => ss = []

end Use

/-- Some uses are written among segments, one after another, each as it is resolved in its own scopes. -/
inductive Woven (r : Setting) : List Use → List Segment → Prop
  | nil : Woven r [] []
  /-- A segment of the generator's own, or one of the template that is written as it stands. Among the latter are the pattern that a loop
  declares and the type that a parameter of a slot is given: the names in their defaults, keys and types are not resolved. -/
  | own (a : Segment) {us : List Use} {ss : List Segment} : Woven r us ss → Woven r us (a :: ss)
  | use {u : Use} {as : List Segment} {us : List Use} {ss : List Segment} : u.Makes r as → Woven r us ss → Woven r (u :: us) (as ++ ss)

/-- Members that were read, in order, and more of them. -/
def addReads (names more : List String) : List String := more.foldl (fun ns n => addNew n ns) names

/-! ## Sites -/

/-- Where something stands in a template: the names declared around it, by scopes, the innermost first, and the number of components
around it. -/
structure Site where
  scopes : List (List String)
  depth : Nat

namespace Site

/-- A site in one more scope. -/
def within (w : Site) (names : List String) : Site := { w with scopes := names :: w.scopes }

/-- A site in one more component. -/
def inComponent (w : Site) : Site := { w with depth := w.depth + 1 }

/-- An expression with an info of its own. -/
def expressionWith (w : Site) (code : String) (start : Nat) (i : Info) (front back : String) : Use :=
  ⟨.expression SourceId.template code start i front back, w.scopes⟩

/-- An expression that is checked. -/
def expression (w : Site) (code : String) (start : Nat) (front back : String) : Use := w.expressionWith code start Info.checked front back

/-- A member of the component. -/
def member (w : Site) (name : String) : Use := ⟨.member name, w.scopes⟩

end Site

/-! ## Uses of properties -/

/-- The uses of a key of an object literal. Only a computed one has any. -/
def keyUses (w : Site) (code : String) (offset : Nat) (i : Info) (constant : Bool) : List Use :=
  match bracketed? code with
  | some inner =>
    if constant then [w.expressionWith inner (offset + 1) i ("[" ++ Names.ofKey "tryAsConstant" ++ "(") ")]"]
    else [w.expressionWith code offset i "" ""]
  | none => []

/-- The uses of the access to a property. -/
def accessUses (w : Site) (code : String) (offset : Nat) (i : Info) : List Use :=
  if (bracketed? code).isSome then [w.expressionWith code offset i "" ""] else []

/-- The uses of the value of a listener. The statements of one stand in a scope with `$event`. -/
def listenerUses (r : Setting) (w : Site) (d : Directive) : List Use :=
  match d.exp with
  | none => []
  | some e =>
    if isCompound r.reader e.content then [(w.within ["$event"]).expression e.content e.offset "" ""]
    else [w.expression e.content e.offset "(" ")"]

/-- The uses of the listener that a model stands for. -/
def modelUses (w : Site) (d : Directive) : List Use :=
  match d.exp with
  | none => []
  | some e => [w.expression e.content e.offset "" ""]

/-- The uses of the check of one listener. -/
def checkedUses (r : Setting) (w : Site) (d : Directive) : List Use := if d.name == "on" then listenerUses r w d else modelUses w d

/-- The uses of the checks of the listeners of a component. -/
def componentListenerUses (r : Setting) (w : Site) (e : Element) : List Use :=
  (e.props.filterMap fun
    | .directive d => if isEventDirective (r.options.flag .strictVModel) d then some d else none
    | .plain _ => none).flatMap (checkedUses r w)

/-- The uses of what a listener says about the properties. -/
def listenerEntryUses (r : Setting) (w : Site) (isComponent : Bool) (d : Directive) : List Use :=
  match d.arg with
  | some a => if a.isStatic && !isComponent then listenerUses r w d else []
  | none => []

/-- What a listener leaves over. -/
def listenerLoose (d : Directive) : List Loose :=
  match d.arg, d.exp with
  | some a, exp =>
    if a.isStatic then []
    else
      match exp with
      | some e => [⟨"[" ++ a.content ++ "]", a.offset - 1, "(", ")"⟩, ⟨e.content, e.offset, "() => \x7b", "\x7d"⟩]
      | none => []
  | none, some e => [Loose.ofExpression e]
  | none, none => []

/-- What is said of a property if it is a directive. -/
def ofDirective {α : Type} (f : Directive → List α) : Property → List α
  | .directive d => f d
  | .plain _ => []

/-- The uses of the value of a binding. -/
def valueUses (w : Site) (d : Directive) : List Use :=
  match d.exp with
  | some e => [w.expression e.content e.offset "(" ")"]
  | none =>
    match shorthand? d with
    | none => []
    | some (a, name) => [⟨.shorthand a name, w.scopes⟩]

/-- The uses of modifiers. -/
def modifierUses (w : Site) (d : Directive) : List Use := d.modifiers.flatMap fun m => keyUses w m.content m.offset Info.checked false

/-- The uses of a bound property. -/
def boundUses (w : Site) (e : Element) (d : Directive) (name : String) (i : Info) : List Use :=
  (if d.arg.isSome then keyUses w name (argumentSpan d).start i false else []) ++
    (valueUses w d ++ if e.kind == .component && d.name == "model" && !d.modifiers.isEmpty then modifierUses w d else [])

/-- The name of a property that a binding or a model is the entry of, unless its name is that of data. -/
def entryName? (o : Options) (e : Element) (d : Directive) : Option String :=
  (boundName o e d).filter fun name => !Text.matchesOne o.dataAttributes name

/-- The uses of the entry of a property that is no listener. -/
def entryUses (r : Setting) (w : Site) (e : Element) (i : Info) : Property → List Use
  | .plain a => if Text.matchesOne r.options.dataAttributes a.name then [] else keyUses w a.name a.span.start i false
  | .directive d =>
    if d.name == "model" || (d.name == "bind" && d.arg.isSome) then
      match entryName? r.options e d with
      | some name => boundUses w e d name i
      | none => []
    else if d.name == "bind" then
      if d.exp.any fun x => x.content == "$attrs" then [] else (d.exp.toList.map fun x => w.expression x.content x.offset "(" ")")
    else []

/-- What a property that is no listener leaves over. -/
def entryLoose (r : Setting) (e : Element) : Property → List Loose
  | .plain _ => []
  | .directive d =>
    if d.name == "model" || (d.name == "bind" && d.arg.isSome) then
      if (entryName? r.options e d).isSome then [] else d.exp.toList.map Loose.ofExpression
    else if d.name == "bind" then (d.exp.toList.filter fun x => x.content == "$attrs").map Loose.ofExpression
    else []

/-- The uses of the entries of some properties of an element. -/
def entriesUses (r : Setting) (w : Site) (e : Element) (ps : List Property) (strict : Bool) : List Use :=
  ps.flatMap (ofDirective fun d => if d.name == "on" then listenerEntryUses r w (e.kind == .component) d else []) ++
    ps.flatMap (entryUses r w e (Info.propertyOf strict))

/-- What the entries of some properties leave over. -/
def entriesLoose (r : Setting) (e : Element) (ps : List Property) : List Loose :=
  ps.flatMap (ofDirective fun d => if d.name == "on" then listenerLoose d else []) ++ ps.flatMap (entryLoose r e)

/-- The uses of expressions on lines of their own. -/
def looseUses (w : Site) (ls : List Loose) : List Use := ls.map fun l => w.expression l.code l.offset l.front l.back

/-- The uses of the check of a directive. -/
def directiveUses (w : Site) (d : Directive) : List Use :=
  (if builtinDirectives.contains d.name then [] else [w.member (Text.camelize ("v-" ++ d.name))]) ++
    ((match d.arg with
      | some a => if a.isStatic then [] else [w.expression a.content a.offset "(" ")"]
      | none => []) ++
    (modifierUses w d ++ if d.exp.isSome then valueUses w d else []))

/-- The uses of the checks of the directives of an element. -/
def directivesUses (w : Site) (ps : List Property) : List Use :=
  ps.flatMap (ofDirective fun d => if ["slot", "on", "model", "bind"].contains d.name then [] else directiveUses w d)

/-- The use of a reference that an element is given. -/
def refUses (r : Setting) (w : Site) (e : Element) : List Use :=
  match (e.attr "ref").bind (·.value) with
  | some v => if Text.isPlainIdent v.content && !r.setupRefs.contains v.content then [w.member v.content] else []
  | none => []

/-! ## Uses of elements -/

/-- The uses of a declared slot. -/
def declaredSlotUses (w : Site) (e : Element) : List Use :=
  match e.props.find? isOutletName with
  | some (.plain a) => (a.value.toList.flatMap fun v => accessUses w v.content v.offset Info.checked)
  | some (.directive d) => valueUses w d
  | none => []

/-- The use of the computed name of an outlet. -/
def outletNameUses (w : Site) (e : Element) : List Use :=
  match e.props.find? isOutletName with
  | some (.directive d) => d.exp.toList.map fun x => w.expression x.content x.offset "" ""
  | _ => []

/-- The uses of an outlet. -/
def outletUses (r : Setting) (w : Site) (e : Element) : List Use :=
  if r.hasDefineSlots then declaredSlotUses w e ++ entriesUses r w e (withoutName e.props) true
  else entriesUses r w e e.props (r.options.flag .checkUnknownProps) ++ outletNameUses w e

/-- The uses of the name of the slot that a directive fills. -/
def slotNameUses (w : Site) (d : Directive) : List Use :=
  match d.arg.filter fun a => !a.content.isEmpty with
  | some a =>
    if a.isStatic then keyUses w a.content a.offset Info.checked true
    else keyUses w ("[" ++ a.content ++ "]") (a.offset - 1) Info.checked true
  | none => []

/-- The names that the parameters of a slot bind. -/
def slotNames (r : Setting) (x : Option Markup.Expression) : List String :=
  ((x.bind fun x => parametersOf? r.reader (parametersText x)).getD []).flatMap fun p => p.bound.map (·.id.name)

/-- The uses of the parameters of a slot. -/
def parameterUses (r : Setting) (w : Site) (x : Markup.Expression) : List Use :=
  if (parametersOf? r.reader (parametersText x)).isSome then [⟨.parameters x, w.scopes⟩] else []

/-- The uses of what fills a slot. Its parameters are in force for what stands in it, and not for themselves. -/
def slotUses (r : Setting) (inner : Site → List Use) (w : Site) (d : Option Directive) : List Use :=
  let x := d.bind (·.exp)
  d.toList.flatMap (slotNameUses w) ++ (x.toList.flatMap (parameterUses r (w.within [])) ++ inner (w.within (slotNames r x)))

/-- The uses of a native element. -/
def nativeUses (r : Setting) (inner : Site → List Use) (w : Site) (e : Element) : List Use :=
  accessUses w e.tag e.tagOffset Info.checked ++
    ((e.endTagOffset r.source).toList.flatMap (fun stop => accessUses w e.tag stop Info.checked) ++
      (entriesUses r w e e.props (r.options.flag .checkUnknownProps) ++
        (looseUses w (entriesLoose r e e.props) ++ (directivesUses w e.props ++ (refUses r w e ++ inner w)))))

/-- The uses of a `<template>` that fills no slot. -/
def groupUses (r : Setting) (inner : Site → List Use) (w : Site) (e : Element) : List Use :=
  (if e.props.isEmpty then [] else entriesUses r w e e.props (r.options.flag .checkUnknownProps)) ++ inner w

/-- The uses of what a component is called by, at its opening tag and at its closing tag. -/
def calleeUses (w : Site) (c : Callee) : List Use :=
  if c.isExpression then (c.start :: c.stop.toList).map fun start => w.expression c.code start "(" ")" else []

/-- The uses of a component. They stand in it, and so does what fills its slots. -/
def componentUses (r : Setting) (inner : Site → List Use) (w : Site) (e : Element) (hasChildren : Bool) : List Use :=
  let w := w.inComponent
  let c := Callee.ofElement e r.source
  calleeUses w c ++
    (entriesUses r w e c.props (r.options.flag .checkUnknownProps) ++
      (looseUses w (entriesLoose r e c.props) ++
        (componentListenerUses r w e ++
          (directivesUses w e.props ++
            (refUses r w e ++ if (e.directive "slot").isSome || hasChildren then slotUses r inner w (e.directive "slot") else [])))))

/-- The uses of an element, with those of what stands in it. -/
def elementUses (r : Setting) (inner : Site → List Use) (w : Site) (e : Element) (hasChildren : Bool) : List Use :=
  match e.kind with
  | .slot => outletUses r w e ++ inner w
  | .native => nativeUses r inner w e
  | .component => componentUses r inner w e hasChildren
  | .template =>
    match e.directive "slot" with
    | some d => if w.depth = 0 then groupUses r inner w e else slotUses r inner w (some d)
    | none => groupUses r inner w e

/-! ## Uses of nodes -/

/-- Whether comments say that the next node is to be passed over. -/
def skips (cs : List (Span × String)) : Bool := cs.any fun c => (directiveComment? c.2).any (·.1 == "skip")

/-- The names that a loop declares. -/
def loopNamesOf (r : Setting) (h : LoopHead) : List String :=
  match h.aliasSpan with
  | some span => aliasNames r.reader (String.ofList (Text.between span.start span.stop r.source))
  | none => []

/-- The use of an interpolation, with the blanks around its expression. -/
def interpolationUse (r : Setting) (w : Site) (x : Markup.Expression) : Use :=
  let start := x.offset - blanks (Text.between 0 x.offset r.source).reverse
  let stop := x.stop + blanks (Text.after x.stop r.source)
  w.expression (String.ofList (Text.between start stop r.source)) start "(" ");\n"

mutual

/-- The uses of a node before which some comments wait. -/
def nodeUses (r : Setting) (w : Site) (cs : List (Span × String)) : Node → List Use
  | .comment _ _ => []
  | .text _ _ => []
  | .interpolation _ x => if skips cs then [] else [interpolationUse r w x]
  | .element e children => if skips cs then [] else elementUses r (fun w => nodesUses r w [] children) w e (!children.isEmpty)
  | .loop _ h children =>
    if skips cs then []
    else
      let own := w.within (loopNamesOf r h)
      (h.source.toList.map fun x => own.expression x.content x.offset "(" ")") ++ nodesUses r own [] children
  | .chain _ bs => if skips cs then [] else branchesUses r w [] bs

/-- The uses of nodes. -/
def nodesUses (r : Setting) (w : Site) (cs : List (Span × String)) : List Node → List Use
  | [] => []
  | n :: ns => nodeUses r w cs n ++ nodesUses r w (waitBehind cs n) ns

/-- The uses of the branches of a chain. What waits at the end of one waits at the start of the next. -/
def branchesUses (r : Setting) (w : Site) (cs : List (Span × String)) : List Branch → List Use
  | [] => []
  | .mk _ x children :: bs =>
    (x.toList.map fun x => w.expression x.content x.offset "(" ")") ++
      (nodesUses r w cs children ++ branchesUses r w (children.foldl waitBehind cs) bs)

end

/-! ## Uses of templates -/

/-- The outermost site of a template. The constants of the setup script and the variables of the properties and slots are declared there. -/
def Site.root (r : Setting) : Site := ⟨[r.setupConsts ++ r.propsName.toList ++ r.slotsName.toList], 0⟩

/-- The uses of the nodes of a template. -/
def templateUses (r : Setting) (f : Option Fragment) : List Use := f.toList.flatMap fun f => nodesUses r (.root r) [] f.nodes

/-- The uses of the values that styles are bound to. They stand in one scope with the constants of the setup script. -/
def stylesUses (r : Setting) (ss : List StyleBlock) : List Use :=
  ss.zipIdx.flatMap fun s => s.1.bindings.map fun b =>
    ⟨.expression (SourceId.style s.2) b.text b.offset Info.checked "(" ")", [r.setupConsts]⟩

/-- Whether a use is that of a key of a slot or of a reference, which a template declares behind its nodes. -/
def DeclaredKey (r : Setting) (u : Use) : Prop := ∃ name offset, u ∈ keyUses (.root r) name offset Info.silent false

end Generate

end TypedSfc
