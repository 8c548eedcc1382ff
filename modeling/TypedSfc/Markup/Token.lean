import TypedSfc.Text.Bytes
import TypedSfc.Span

/-!
# Markup tokens

The tokens of markup only show where tags, attribute names, quotes and interpolations begin; texts and values are read back from the
source. Each token is the longest the source has at its place, and blanks between tokens are skipped.
-/

namespace TypedSfc

namespace Markup

/-- The kinds of token. -/
inductive TokenKind where
  | commentOpen
  | angleSlash
  | angle
  | close
  | slashClose
  | slash
  | equals
  | doubleQuote
  | singleQuote
  | mustacheOpen
  | mustacheClose
  | brace
  | newline
  | name
  | eof
  deriving DecidableEq, Repr, Inhabited

/-- What a message calls a token. -/
def TokenKind.label : TokenKind → String
  | commentOpen => "'<!--'"
  | angleSlash => "'</'"
  | angle => "'<'"
  | close => "'>'"
  | slashClose => "'/>'"
  | slash => "'/'"
  | equals => "'='"
  | doubleQuote => "'\"'"
  | singleQuote => "'''"
  | mustacheOpen => "'\x7b\x7b'"
  | mustacheClose => "'\x7d\x7d'"
  | brace => "brace"
  | newline => "newline"
  | name => "name"
  | eof => "end of file"

/-- A token and its place. -/
structure Token where
  kind : TokenKind
  span : Span
  deriving DecidableEq, Repr, Inhabited

namespace Token

/-- The token moved forward. -/
def shift (t : Token) (delta : Nat) : Token := ⟨t.kind, t.span.shift delta⟩

/-- The blanks that separate tokens; a line feed is a token. -/
def isSkipped (c : Char) : Bool := c == ' ' || c == '\t' || c == '\r' || c == '\x0c'

/-- The characters of a tag or attribute name. -/
def isNameChar (c : Char) : Bool :=
  !(isSkipped c || c == '\n' || c == '\x22' || c == '\x27' || c == '<' || c == '>' || c == '/' || c == '=' || c == '{' || c == '}')

/-- The kind of the token that starts with `c`, and how many of the characters after `c` belong to it. -/
def scan (c : Char) (cs : List Char) : TokenKind × Nat :=
  if c == '<' then
    match cs with
    | '!' :: '-' :: '-' :: _ => (.commentOpen, 3)
    | '/' :: _ => (.angleSlash, 1)
    | _ => (.angle, 0)
  else if c == '/' then
    match cs with
    | '>' :: _ => (.slashClose, 1)
    | _ => (.slash, 0)
  else if c == '{' then
    match cs with
    | '{' :: _ => (.mustacheOpen, 1)
    | _ => (.brace, 0)
  else if c == '}' then
    match cs with
    | '}' :: _ => (.mustacheClose, 1)
    | _ => (.brace, 0)
  else if c == '>' then (.close, 0)
  else if c == '=' then (.equals, 0)
  else if c == '\x22' then (.doubleQuote, 0)
  else if c == '\x27' then (.singleQuote, 0)
  else if c == '\n' then (.newline, 0)
  else (.name, (cs.takeWhile isNameChar).length)

/-- The tokens of a text that starts at `pos`; `skip` characters of it belong to the token before. -/
def lexFrom (pos skip : Nat) : List Char → List Token
  | [] => [⟨.eof, Span.empty pos⟩]
  | c :: cs =>
    match skip with
    | skip + 1 => lexFrom (pos + c.utf8Size) skip cs
    | 0 =>
      if isSkipped c then lexFrom (pos + c.utf8Size) 0 cs
      else
        let s := scan c cs
        ⟨s.1, ⟨pos, pos + Text.size (c :: cs.take s.2)⟩⟩ :: lexFrom (pos + c.utf8Size) s.2 cs

/-- The tokens of a source, the last of which is the end of the file. -/
def lex (source : List Char) : List Token := lexFrom 0 0 source

end Token

end Markup

end TypedSfc
