import TypedSfc.Script.Grammar.Items

/-!
# Modules

A script is read as a module. What comes of it are its items, if nothing stopped the reading, with the comments and the faults in it.
-/

namespace TypedSfc

namespace Script

namespace Grammar

/-- The grammar to a depth. Each construct takes the grammar of the next depth for what stands inside it. -/
def toDepth : Nat → Grammar
  | 0 => spent
  | depth + 1 =>
    { assignment := fun c s => assignmentOf (toDepth depth) c s
      unary := fun c s => unaryOf (toDepth depth) c s
      type := fun c s => typeOf (toDepth depth) c s
      pattern := fun c s => patternOf (toDepth depth) c s
      statement := fun c s => statementOf (toDepth depth) c s
      element := fun c s => elementOf (toDepth depth) c s
      member := fun c s => itemParts (toDepth depth) c s }

end Grammar

/-- A script that was read. -/
structure Module where
  /-- The items, unless a fault stopped the reading. -/
  items : Option (List Item)
  /-- The comments, by their places. -/
  comments : List Comment
  errors : List Error
  deriving Inhabited

/-- Whether types may be written in a script of a language. -/
def isTyped (lang : String) : Bool := lang == "ts" || lang == "tsx" || lang == "mts" || lang == "cts"

/-- Whether elements may be written in a script of a language. -/
def hasMarkup (lang : String) : Bool := lang == "tsx" || lang == "jsx"

/-- Comments by their places, each place once; a look ahead may have passed one twice. -/
def inOrder (cs : List Comment) : List Comment :=
  let sorted := cs.reverse.mergeSort fun a b => a.span.start ≤ b.span.start
  let rec once : Option Nat → List Comment → List Comment
    | _, [] => []
    | last, c :: cs => if last == some c.span.start then once last cs else c :: once (some c.span.start) cs
  once none sorted

/-- Reads a script of a language. Constructs nest no deeper than a few times the length of the text. When the reading stops early,
comments are known only if it came to the end of the text. -/
def Module.read (content lang : String) : Module :=
  let source := content.toList
  let c : Context := { source := source, typed := isTyped lang, markup := hasMarkup lang }
  let depth := 3 * source.length + 16
  match Grammar.items (Grammar.toDepth depth) c (State.start source) with
  | .ok is s => ⟨some is, inOrder s.comments, s.errors.reverse⟩
  | .fail e s => ⟨none, if s.token.kind == .eof then inOrder s.comments else [], s.errors.reverse ++ [e]⟩

/-- What reads scripts: from a text and its language to a module. -/
abbrev Reader := String → String → Module

end Script

end TypedSfc
