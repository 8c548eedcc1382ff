import TypedSfc.Span

/-!
# Faults of a document

Faults never stop the reading of a document; they are collected beside what could be read.
-/

namespace TypedSfc

namespace Markup

/-- What is wrong at a place of a document. -/
inductive Fault where
  | unexpectedToken (expected found : String)
  | unexpectedEof (expected : String)
  /-- An element or a block that is never closed. -/
  | unclosedTag (tag : String)
  /-- A second block of a kind that may come once. -/
  | duplicateBlock (name : String)
  /-- A closing tag without an open element. -/
  | strayClosingTag (tag : String)
  /-- An interpolation or a comment that does not end. -/
  | unterminated (construct : String)
  | invalidDirective (reason : String)
  /-- A `v-else` or `v-else-if` that continues no chain. -/
  | missingIf (directive : String)
  /-- A `v-for` that is not of the form "alias in source". -/
  | invalidFor (expression : String)
  deriving DecidableEq, Repr, Inhabited

/-- The wording of a fault. -/
def Fault.message : Fault → String
  | unexpectedToken e f => s!"unexpected token: expected {e}, found {f}"
  | unexpectedEof e => s!"unexpected end of file: expected {e}"
  | unclosedTag t => s!"unclosed tag: <{t}>"
  | duplicateBlock n => s!"duplicate <{n}> block"
  | strayClosingTag t => s!"stray closing tag: </{t}>"
  | unterminated c => s!"unterminated {c}"
  | invalidDirective r => s!"invalid directive: {r}"
  | missingIf d => s!"v-{d} has no adjacent v-if or v-else-if"
  | invalidFor e => s!"invalid v-for expression: {e}"

/-- A fault and its place. -/
structure ParseError where
  fault : Fault
  span : Span
  deriving DecidableEq, Repr, Inhabited

/-- The same fault, moved forward. -/
def ParseError.shift (e : ParseError) (delta : Nat) : ParseError := ⟨e.fault, e.span.shift delta⟩

end Markup

end TypedSfc
