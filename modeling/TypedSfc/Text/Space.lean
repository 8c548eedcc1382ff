/-!
# White space

Two notions are in use. Markup and style sheets know the five ASCII blanks; expressions and comments are trimmed of everything with
the Unicode property White_Space.
-/

namespace TypedSfc

namespace Text

/-- The blanks of markup: space, tab, line feed, form feed and carriage return. -/
def isAsciiBlank (c : Char) : Bool :=
  c == ' ' || c == '\t' || c == '\n' || c == '\x0c' || c == '\r'

/-- The Unicode property White_Space. -/
def isSpace (c : Char) : Bool :=
  let n := c.toNat
  (0x09 ≤ n && n ≤ 0x0d) || n == 0x20 || n == 0x85 || n == 0xa0 || n == 0x1680 || (0x2000 ≤ n && n ≤ 0x200a) || n == 0x2028 ||
    n == 0x2029 || n == 0x202f || n == 0x205f || n == 0x3000

/-- Whether a text is white space only. -/
def isBlank (cs : List Char) : Bool :=
  cs.all isSpace

/-- A text without the white space before it. -/
def trimStart (cs : List Char) : List Char :=
  cs.dropWhile isSpace

/-- A text without the white space after it. -/
def trimEnd (cs : List Char) : List Char :=
  (cs.reverse.dropWhile isSpace).reverse

/-- A text without the white space around it. -/
def trim (cs : List Char) : List Char :=
  trimEnd (trimStart cs)

end Text

end TypedSfc
