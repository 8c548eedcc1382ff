import TypedSfc.Text.Bytes
import TypedSfc.Span

/-!
# The template tree

Offsets of a tree count from the start of the template they were read from. An element keeps what its opening tag says apart from
its children; conditional chains and loops are nodes of their own.
-/

namespace TypedSfc

namespace Markup

/-- A piece of the template: an argument, a modifier or an expression. A static one stands for its own text. -/
structure Expression where
  content : String
  offset : Nat
  isStatic : Bool
  deriving DecidableEq, Repr, Inhabited

namespace Expression

/-- Where an expression ends. -/
def stop (e : Expression) : Nat := e.offset + e.content.utf8ByteSize

/-- The place of an expression. -/
def span (e : Expression) : Span := ⟨e.offset, e.stop⟩

end Expression

/-- The value of an attribute, without its quotes. -/
structure AttributeValue where
  content : String
  offset : Nat
  quoted : Bool
  deriving DecidableEq, Repr, Inhabited

/-- An attribute that is no directive; one without a value is a flag. -/
structure Attribute where
  name : String
  value : Option AttributeValue
  span : Span
  deriving DecidableEq, Repr, Inhabited

/-- A directive: its name without mark or `v-`, and the attribute name as written. -/
structure Directive where
  name : String
  rawName : String
  arg : Option Expression
  exp : Option Expression
  modifiers : List Expression
  span : Span
  deriving DecidableEq, Repr, Inhabited

/-- What an opening tag may hold. -/
inductive Property where
  | plain (a : Attribute)
  | directive (d : Directive)
  deriving DecidableEq, Repr, Inhabited

/-- The place of a property. -/
def Property.span : Property → Span
  | plain a => a.span
  | directive d => d.span

/-- The part that an element plays. -/
inductive TagKind where
  /-- A native element. -/
  | native
  | component
  /-- The outlet of a slot. -/
  | slot
  /-- A `<template>` with a structural directive. -/
  | template
  deriving DecidableEq, Repr, Inhabited

/-- An element without its children: its place up to the end of the closing tag, and its opening tag. -/
structure Element where
  span : Span
  tag : String
  kind : TagKind
  props : List Property
  selfClosing : Bool
  /-- The position past the `>` of the opening tag. -/
  startTagEnd : Nat
  deriving DecidableEq, Repr, Inhabited

namespace Element

/-- Where the name stands in the opening tag. -/
def tagOffset (e : Element) : Nat := e.span.start + 1

/-- Where the name stands in the closing tag, when the last `</` of the element names it. -/
def endTagOffset (e : Element) (source : List Char) : Option Nat :=
  if e.selfClosing then none
  else
    (Text.slice 0 e.span.stop source).bind fun head =>
      (Text.findLast ['<', '/'] head).bind fun close =>
        if e.startTagEnd ≤ close && Text.begins e.tag.toList (Text.after (close + 2) head) then some (close + 2) else none

/-- The first directive of a name. -/
def directive (e : Element) (name : String) : Option Directive :=
  e.props.findSome? fun
    | .directive d => if d.name = name then some d else none
    | .plain _ => none

/-- The first attribute of a name. -/
def attr (e : Element) (name : String) : Option Attribute :=
  e.props.findSome? fun
    | .plain a => if a.name = name then some a else none
    | .directive _ => none

/-- Whether an element is a `<template>` that fills a slot. -/
def isSlotTemplate (e : Element) : Bool :=
  e.kind == .template && (e.directive "slot").isSome

end Element

/-- What a loop runs over and the names it declares. -/
structure LoopHead where
  source : Option Expression := none
  value : Option Expression := none
  key : Option Expression := none
  index : Option Expression := none
  deriving DecidableEq, Repr, Inhabited

/-- The place of the names of a loop, from the first to the last. -/
def LoopHead.aliasSpan (h : LoopHead) : Option Span :=
  (h.value.or (h.key.or h.index)).bind fun first =>
    (h.index.or (h.key.or h.value)).map fun last => ⟨first.offset, last.stop⟩

mutual

/-- A node of a template. -/
inductive Node where
  | element (head : Element) (children : List Node)
  | text (span : Span) (data : String)
  | comment (span : Span) (data : String)
  | interpolation (span : Span) (expression : Expression)
  | chain (span : Span) (branches : List Branch)
  | loop (span : Span) (head : LoopHead) (children : List Node)

/-- A branch of a conditional chain. One without a condition is taken whenever it is reached; it need not be the last one. -/
inductive Branch where
  | mk (span : Span) (condition : Option Expression) (children : List Node)

end

instance : Inhabited Node := ⟨.text ⟨0, 0⟩ ""⟩

instance : Inhabited Branch := ⟨.mk ⟨0, 0⟩ none []⟩

mutual

/-- Whether two nodes are equal. -/
def Node.same : Node → Node → Bool
  | .element e ns, .element f ms => e == f && sameNodes ns ms
  | .text s t, .text r u | .comment s t, .comment r u => s == r && t == u
  | .interpolation s x, .interpolation r y => s == r && x == y
  | .chain s bs, .chain r cs => s == r && sameBranches bs cs
  | .loop s h ns, .loop r k ms => s == r && h == k && sameNodes ns ms
  | _, _ => false

/-- Whether two branches are equal. -/
def Branch.same : Branch → Branch → Bool
  | .mk s x ns, .mk r y ms => s == r && x == y && sameNodes ns ms

def sameNodes : List Node → List Node → Bool
  | [], [] => true
  | n :: ns, m :: ms => n.same m && sameNodes ns ms
  | _, _ => false

def sameBranches : List Branch → List Branch → Bool
  | [], [] => true
  | b :: bs, c :: cs => b.same c && sameBranches bs cs
  | _, _ => false

end

mutual

/-- The comparison of nodes is equality. It is shown together with those of branches and of lists, by recursion on the first of the two. -/
theorem Node.same_iff : (n m : Node) → (n.same m = true ↔ n = m)
  | .element e ns, m => by cases m <;> simp [Node.same, sameNodes_iff ns]
  | .text s t, m | .comment s t, m | .interpolation s x, m => by cases m <;> simp [Node.same]
  | .chain s bs, m => by cases m <;> simp [Node.same, sameBranches_iff bs]
  | .loop s h ns, m => by cases m <;> simp [Node.same, sameNodes_iff ns, and_assoc]

theorem Branch.same_iff : (b c : Branch) → (b.same c = true ↔ b = c)
  | .mk s x ns, .mk r y ms => by simp [Branch.same, sameNodes_iff ns, and_assoc]

theorem sameNodes_iff : (ns ms : List Node) → (sameNodes ns ms = true ↔ ns = ms)
  | [], ms => by cases ms <;> simp [sameNodes]
  | n :: ns, ms => by cases ms <;> simp [sameNodes, Node.same_iff n, sameNodes_iff ns]

theorem sameBranches_iff : (bs cs : List Branch) → (sameBranches bs cs = true ↔ bs = cs)
  | [], cs => by cases cs <;> simp [sameBranches]
  | b :: bs, cs => by cases cs <;> simp [sameBranches, Branch.same_iff b, sameBranches_iff bs]

end

instance : DecidableEq Node := fun n m => decidable_of_iff (n.same m = true) (n.same_iff m)

namespace Branch

/-- The place of a branch. -/
def span : Branch → Span
  | mk s _ _ => s

/-- The condition of a branch. -/
def condition : Branch → Option Expression
  | mk _ c _ => c

/-- What a branch holds. -/
def children : Branch → List Node
  | mk _ _ ns => ns

end Branch

/-- The place of a node. -/
def Node.span : Node → Span
  | element e _ => e.span
  | text s _ | comment s _ | interpolation s _ | chain s _ | loop s _ _ => s

/-- A template: its nodes and the place of the whole. -/
structure Fragment where
  nodes : List Node
  span : Span
  deriving Inhabited

end Markup

end TypedSfc
