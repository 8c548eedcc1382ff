import TypedSfc.Text.Space
import TypedSfc.Markup.Error
import TypedSfc.Markup.Node
import TypedSfc.Markup.Tag

/-!
# Directives

An attribute whose name begins with `v-` or one of the marks `:`, `@`, `#` and `.` is a directive: a name, an argument that may be
dynamic, and modifiers after dots.
-/

namespace TypedSfc

namespace Markup

/-- An attribute as written in an opening tag. -/
structure RawAttribute where
  name : String
  nameOffset : Nat
  value : Option AttributeValue
  span : Span
  deriving DecidableEq, Repr, Inhabited

namespace RawAttribute

/-- The parts of a text around its dots, each with its position. -/
def dotParts (pos : Nat) (part : List Char) : List Char → List (List Char × Nat)
  | [] => [(part.reverse, pos - Text.size part)]
  | c :: cs =>
    if c == '.' then (part.reverse, pos - Text.size part) :: dotParts (pos + c.utf8Size) [] cs
    else dotParts (pos + c.utf8Size) (c :: part) cs

/-- The modifiers of the rest of a name, which starts at `pos`. -/
def modifiersOf (pos : Nat) (cs : List Char) : List Expression :=
  (dotParts pos [] cs).filterMap fun p => if p.1.isEmpty then none else some ⟨String.ofList p.1, p.2, true⟩

/-- What an attribute name begins with. -/
structure Mark where
  /-- The name of the directive. -/
  name : String
  /-- Whether an argument may follow. -/
  takesArg : Bool
  /-- The rest of the attribute name. -/
  rest : List Char
  /-- Modifiers that the mark stands for. -/
  implied : List String
  deriving DecidableEq, Repr, Inhabited

/-- Reads the mark of a directive; an attribute without one is plain. -/
def mark? : List Char → Option Mark
  | 'v' :: '-' :: cs =>
    let isName := fun c : Char => !(c == ':' || c == '.')
    match cs.takeWhile isName, cs.dropWhile isName with
    | [], _ => none
    | n, ':' :: rest => some ⟨String.ofList n, true, rest, []⟩
    | n, rest => some ⟨String.ofList n, false, rest, []⟩
  | ':' :: cs => some ⟨"bind", true, cs, []⟩
  | '@' :: cs => some ⟨"on", true, cs, []⟩
  | '#' :: cs => some ⟨"slot", true, cs, []⟩
  | '.' :: cs => some ⟨"bind", true, cs, ["prop"]⟩
  | _ => none

/-- The argument at the start of `cs`, which begins at `pos`, with what follows it and whether a bracket of it stays open. The name of
a slot keeps its dots. -/
def argument (directive : String) (pos : Nat) (cs : List Char) : Option Expression × List Char × Bool :=
  match cs with
  | '[' :: inner =>
    match inner.dropWhile (· != ']') with
    | _ :: rest => (some ⟨String.ofList (inner.takeWhile (· != ']')), pos + 1, false⟩, rest, false)
    | [] => (some ⟨String.ofList inner, pos + 1, false⟩, [], true)
  | _ =>
    let own := if directive = "slot" then cs else cs.takeWhile (· != '.')
    let rest := if directive = "slot" then [] else cs.dropWhile (· != '.')
    (if own.isEmpty then none else some ⟨String.ofList own, pos, true⟩, rest, false)

/-- Reads an attribute as a directive, if it is one, with the fault of an open bracket. -/
def directive? (raw : RawAttribute) : Option Directive × List ParseError :=
  match mark? raw.name.toList with
  | none => (none, [])
  | some m =>
    let full := Text.size raw.name.toList
    let place := fun rest => raw.nameOffset + (full - Text.size rest)
    let (arg, rest, isOpen) := if m.takesArg then argument m.name (place m.rest) m.rest else (none, m.rest, false)
    let faults :=
      if isOpen then [⟨.invalidDirective ("missing \x60]\x60 in dynamic argument of " ++ raw.name), raw.span⟩] else []
    (some {
      name := m.name
      rawName := raw.name
      arg := arg
      exp := (raw.value.filter fun v => !Text.isBlank v.content.toList).map fun v => ⟨v.content, v.offset, false⟩
      modifiers := m.implied.map (⟨·, raw.nameOffset, true⟩) ++ modifiersOf (place rest) rest
      span := raw.span }, faults)

/-- Reads an attribute as a property of its element. -/
def property (raw : RawAttribute) : Property × List ParseError :=
  match raw.directive? with
  | (some d, faults) => (.directive d, faults)
  | (none, faults) => (.plain ⟨raw.name, raw.value, raw.span⟩, faults)

end RawAttribute

/-- The part that an element plays, by its tag and properties. -/
def TagKind.of (tag : String) (props : List Property) : TagKind :=
  if tag = "slot" then .slot
  else if tag = "template" then
    if props.any fun | .directive d => Tag.structural.contains d.name | .plain _ => false then .template else .native
  else
    let is := props.findSome? fun
      | .plain a => if a.name = "is" then a.value.map (·.content) else none
      | .directive _ => none
    if Tag.isComponent tag is then .component else .native

end Markup

end TypedSfc
