import TypedSfc.Markup.Error
import TypedSfc.Markup.Loop

/-!
# Chains and loops

Elements that follow each other with `v-if`, `v-else-if` and `v-else` become one chain, and an element with `v-for` becomes a loop.
A `<template>` that only carries such a directive is replaced by what it holds; one that fills a slot is left as it is. Texts of white
space are dropped, and so are comments between two branches of a chain.
-/

namespace TypedSfc

namespace Markup

/-- Removes the first directive of a name. -/
def takeDirective (name : String) : List Property → Option (Directive × List Property)
  | [] => none
  | p :: ps =>
    match p with
    | .directive d =>
      if d.name = name then some (d, ps) else (takeDirective name ps).map fun r => (r.1, p :: r.2)
    | .plain _ => (takeDirective name ps).map fun r => (r.1, p :: r.2)

/-- Removes the first directive of a name from an element. -/
def Element.take (e : Element) (name : String) : Option (Directive × Element) :=
  (takeDirective name e.props).map fun r => (r.1, { e with props := r.2 })

/-- A node whose children are folded, with the faults met there. -/
structure Folded where
  node : Node
  errors : List ParseError
  deriving Inhabited

namespace Folded

/-- The loop around an element, if it has one. -/
def wrapLoop (e : Element) (children : List Node) : Folded :=
  match e.take "for" with
  | none => ⟨.element e children, []⟩
  | some (d, e) =>
    let parsed := d.exp.bind Loop.parse
    let faults := match parsed with
      | some _ => []
      | none => [⟨.invalidFor ((d.exp.map (·.content)).getD ""), d.span⟩]
    let inner := if e.kind = .template then children else [.element e children]
    ⟨.loop e.span (parsed.getD {}) inner, faults⟩

/-- An element as a branch of a chain. -/
def branch (e : Element) (children : List Node) (condition : Option Expression) : Branch × List ParseError :=
  if e.kind = .template && (e.directive "for").isNone then (.mk e.span condition children, [])
  else
    let f := wrapLoop e children
    (.mk e.span condition [f.node], f.errors)

/-- The element with a stray `v-else-if` or `v-else` removed and reported. -/
def dropStray (e : Element) : Element × List ParseError :=
  ["else-if", "else"].foldl (fun (acc : Element × List ParseError) name =>
    match acc.1.take name with
    | some (d, e) => (e, acc.2 ++ [⟨.missingIf name, d.span⟩])
    | none => acc) (e, [])

/-- A chain that may go on: its place, its branches, and the comments since the last branch. -/
structure Pending where
  span : Span
  branches : List Branch
  comments : List Node
  deriving Inhabited

/-- What a chain leaves when it ends. -/
def Pending.nodes (p : Pending) : List Node := .chain p.span p.branches :: p.comments

/-- How a node begins, outside a chain: it starts one, or it stands for some nodes, with faults. -/
def enter (n : Node) : Option Pending × List Node × List ParseError :=
  match n with
  | .text s data => (none, if Text.isBlank data.toList then [] else [.text s data], [])
  | .element e children =>
    if e.isSlotTemplate then (none, [n], [])
    else
      match e.take "if" with
      | some (d, e') =>
        let (b, faults) := branch e' children d.exp
        (some ⟨e.span, [b], []⟩, [], faults)
      | none =>
        let (e, strays) := dropStray e
        let f := wrapLoop e children
        (none, [f.node], strays ++ f.errors)
  | n => (none, [n], [])

/-- How a node goes on with a chain, if it does. -/
def continues (p : Pending) (n : Node) : Option (Pending × List ParseError) :=
  match n with
  | .text _ data => if Text.isBlank data.toList then some (p, []) else none
  | .comment .. => some ({ p with comments := p.comments ++ [n] }, [])
  | .element e children =>
    if e.isSlotTemplate then none
    else
      match e.take "else-if", e.take "else" with
      | some (d, e'), _ =>
        let (b, faults) := branch e' children d.exp
        some (⟨p.span.cover e.span, p.branches ++ [b], []⟩, faults)
      | none, some (_, e') =>
        let (b, faults) := branch e' children none
        some (⟨p.span.cover e.span, p.branches ++ [b], []⟩, faults)
      | none, none => none
  | _ => none

/-- Folds siblings, of which a chain may be pending. -/
def link : Option Pending → List Folded → List Node × List ParseError
  | none, [] => ([], [])
  | some p, [] => (p.nodes, [])
  | none, f :: fs =>
    let (p, ns, errors) := enter f.node
    let rest := link p fs
    (ns ++ rest.1, f.errors ++ errors ++ rest.2)
  | some p, f :: fs =>
    match continues p f.node with
    | some (p, errors) =>
      let rest := link (some p) fs
      (rest.1, f.errors ++ errors ++ rest.2)
    | none =>
      let (q, ns, errors) := enter f.node
      let rest := link q fs
      (p.nodes ++ ns ++ rest.1, f.errors ++ errors ++ rest.2)

end Folded

mutual

/-- Folds the children of a node. -/
def Node.folded : Node → Folded
  | .element e children =>
    let (ns, errors) := Folded.link none (Node.foldedAll children)
    ⟨.element e ns, errors⟩
  | n => ⟨n, []⟩

/-- Folds the children of each node. -/
def Node.foldedAll : List Node → List Folded
  | [] => []
  | n :: ns => n.folded :: Node.foldedAll ns

end

/-- Folds siblings and everything below them. -/
def Node.fold (ns : List Node) : List Node × List ParseError :=
  Folded.link none (Node.foldedAll ns)

end Markup

end TypedSfc
