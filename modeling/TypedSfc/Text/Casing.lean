import TypedSfc.Text.Upper

/-!
# Spellings of a name

Components, properties and events are written in kebab-case in markup and in camelCase or PascalCase in scripts.
-/

namespace TypedSfc

namespace Text

/-- The characters of a word. -/
def isWord (c : Char) : Bool := c.isAlphanum || c == '_'

/-- Whether a text is a plain identifier: letters, digits, `_` and `$`, of which the first is no digit. -/
def isPlainIdent (s : String) : Bool :=
  match s.toList with
  | [] => false
  | c :: cs => (c.isAlpha || c == '_' || c == '$') && cs.all fun c => isWord c || c == '$'

/-- Drops each hyphen before a word character and writes that character in upper case. -/
def camelChars : List Char → List Char
  | [] => []
  | [c] => [c]
  | c :: d :: cs => if c == '-' && isWord d then d.toUpper :: camelChars cs else c :: camelChars (d :: cs)

/-- A name in camelCase. -/
def camelize (s : String) : String := String.ofList (camelChars s.toList)

/-- A name with its first character in upper case. -/
def capitalize (s : String) : String :=
  match s.toList with
  | [] => ""
  | c :: cs => String.ofList (toUpper c ++ cs)

/-- A text in small letters, with a hyphen before each capital that follows a word character; `inWord` says whether one came
before. -/
def hyphenChars (inWord : Bool) : List Char → List Char
  | [] => []
  | c :: cs => (if c.isUpper && inWord then ['-', c.toLower] else [c.toLower]) ++ hyphenChars (isWord c) cs

/-- A name in kebab-case. -/
def hyphenate (s : String) : String := String.ofList (hyphenChars false s.toList)

/-- A name in kebab-case, with a hyphen for a capital at its start, so that `Foo` and `foo` stay two names. -/
def hyphenateAttr (s : String) : String :=
  if s.toList.head?.any isUpper then "-" ++ hyphenate s else hyphenate s

end Text

end TypedSfc
