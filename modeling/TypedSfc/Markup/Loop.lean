import TypedSfc.Text.Space
import TypedSfc.Markup.Node

/-!
# Loop expressions

A loop reads "alias in source" or "alias of source". The alias list may stand in parentheses and holds a value, a key and an index;
commas inside brackets or braces belong to a pattern, not to the list.
-/

namespace TypedSfc

namespace Markup

namespace Loop

/-- The source of a loop, when `cs` begins with the keyword, a blank and something after it. -/
def afterKeyword : List Char → Option (List Char)
  | a :: b :: c :: cs =>
    if ((a == 'i' && b == 'n') || (a == 'o' && b == 'f')) && Text.isAsciiBlank c then
      match Text.trimStart (c :: cs) with
      | [] => none
      | rest => some rest
    else none
  | _ => none

/-- Splits at the first keyword that stands between white space and has a source: the text before, and the source. `before` is what
was passed, last character first. -/
def splitKeyword (before : List Char) : List Char → Option (List Char × List Char)
  | [] => none
  | c :: cs =>
    if Text.isSpace c then
      match afterKeyword (Text.trimStart (c :: cs)) with
      | some rest => some (before.reverse, rest)
      | none => splitKeyword (c :: before) cs
    else splitKeyword (c :: before) cs

/-- The text before the last comma and the text after it. -/
def splitLastComma : List Char → Option (List Char × List Char)
  | [] => none
  | c :: cs =>
    match splitLastComma cs with
    | some (before, rest) => some (c :: before, rest)
    | none => if c == ',' then some ([], cs) else none

/-- Whether a text closes a bracket or a brace. -/
def closesPattern (cs : List Char) : Bool := cs.any fun c => c == '}' || c == ']'

/-- The value of an alias list, its key, and its index, untrimmed. -/
def splitAliases (cs : List Char) : List Char × Option (List Char) × Option (List Char) :=
  match splitLastComma cs with
  | none => (cs, none, none)
  | some (before, last) =>
    if closesPattern last then (cs, none, none)
    else
      match splitLastComma before with
      | some (value, key) => if closesPattern key then (before, some last, none) else (value, some key, some last)
      | none => (before, some last, none)

/-- The expression of a text that starts at `pos`, without the white space around it; none when nothing is left. -/
def piece (pos : Nat) (cs : List Char) : Option Expression :=
  match Text.trim cs with
  | [] => none
  | own => some ⟨String.ofList own, pos + (Text.size cs - Text.size (Text.trimStart cs)), false⟩

/-- A text without one opening parenthesis before it. -/
def dropOpen : List Char → List Char
  | '(' :: cs => cs
  | cs => cs

/-- A text without one closing parenthesis after it. -/
def dropClose (cs : List Char) : List Char :=
  match cs.reverse with
  | ')' :: rest => rest.reverse
  | _ => cs

/-- Reads a loop expression. -/
def parse (e : Expression) : Option LoopHead :=
  (splitKeyword [] e.content.toList).map fun (left, right) =>
    let source := Text.trimEnd right
    let open' := Text.trimStart left
    let inner := dropOpen (Text.trimEnd open')
    let pos := e.offset + (Text.size left - Text.size open') + (Text.size (Text.trimEnd open') - Text.size inner)
    let list := Text.trimStart (dropClose inner)
    let pos := pos + (Text.size (dropClose inner) - Text.size list)
    let (value, key, index) := splitAliases (Text.trimEnd list)
    { source := some ⟨String.ofList source, e.offset + (Text.size e.content.toList - Text.size right), false⟩
      value := piece pos value
      key := key.bind (piece (pos + Text.size value + 1))
      index := key.bind fun k => index.bind (piece (pos + Text.size value + 1 + Text.size k + 1)) }

end Loop

end Markup

end TypedSfc
