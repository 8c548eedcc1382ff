import TypedSfc.Text.Bytes

/-!
# Lines and columns

Lines end at a line feed; lines and columns count from 0. A column is a number of bytes, or, for a type checker that counts that way,
a number of UTF-16 units.
-/

namespace TypedSfc

/-- A line and a column of it. -/
structure LineCol where
  line : Nat
  col : Nat
  deriving DecidableEq, Repr, Inhabited

/-- Where each line of a text starts, and where the text ends. -/
structure LineIndex where
  text : List Char
  starts : List Nat
  size : Nat

namespace LineIndex

/-- The positions just after the line feeds of a text that starts at `pos`. -/
def startsAfter (pos : Nat) : List Char → List Nat
  | [] => []
  | c :: cs =>
    if c == '\n' then (pos + c.utf8Size) :: startsAfter (pos + c.utf8Size) cs else startsAfter (pos + c.utf8Size) cs

/-- The index of a text. -/
def ofText (text : String) : LineIndex :=
  ⟨text.toList, 0 :: startsAfter 0 text.toList, Text.size text.toList⟩

/-- The number of lines; a text without line feed is one line. -/
def lineCount (ix : LineIndex) : Nat := ix.starts.length

/-- Where a line starts. -/
def lineStart (ix : LineIndex) (line : Nat) : Option Nat := ix.starts[line]?

/-- Where a line ends, before its line feed. -/
def lineEnd (ix : LineIndex) (line : Nat) : Option Nat :=
  if line < ix.starts.length then
    some (match ix.starts[line + 1]? with
      | some next => next - 1
      | none => ix.size)
  else
    none

/-- The last line that starts at or before a position. -/
def lineOf (ix : LineIndex) (offset : Nat) : Nat :=
  (ix.starts.takeWhile (· ≤ offset)).length - 1

/-- The line and byte column of a position, unless it is past the end. -/
def lineCol (ix : LineIndex) (offset : Nat) : Option LineCol :=
  if offset ≤ ix.size then
    let line := ix.lineOf offset
    (ix.lineStart line).map fun start => ⟨line, offset - start⟩
  else
    none

/-- The position of a line and byte column; a column may reach past its line, but not past the text. -/
def offset (ix : LineIndex) (p : LineCol) : Option Nat :=
  (ix.lineStart p.line).bind fun start => if start + p.col ≤ ix.size then some (start + p.col) else none

/-- The line and UTF-16 column of a position at which a character starts. -/
def lineColUnits (ix : LineIndex) (offset : Nat) : Option LineCol :=
  (ix.lineCol offset).bind fun p =>
    (Text.slice (offset - p.col) offset ix.text).map fun before => ⟨p.line, Text.units before⟩

/-- The first position of a line, which starts at `pos`, that has at least `units` UTF-16 units before it. -/
def seekUnits (pos units : Nat) : List Char → Nat
  | [] => pos
  | c :: cs => if units = 0 then pos else seekUnits (pos + c.utf8Size) (units - Text.units [c]) cs

/-- The position of a line and UTF-16 column; a column past the end of the line stands for that end. -/
def offsetUnits (ix : LineIndex) (p : LineCol) : Option Nat :=
  (ix.lineStart p.line).bind fun start =>
    (ix.lineEnd p.line).map fun stop => seekUnits start p.col (Text.between start stop ix.text)

end LineIndex

end TypedSfc
