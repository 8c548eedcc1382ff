import TypedSfc.Script.Fault
import TypedSfc.Text.Bytes
import TypedSfc.Text.Identifier

/-!
# Script tokens

A token is read where it is asked for, since what a slash, a brace or a greater-than sign begins is known to the grammar only. Before
it white space and comments are passed.
-/

namespace TypedSfc

namespace Script

/-- The kinds of token. A slash, a backtick and a `>` are read as punctuation; the grammar goes on from there. -/
inductive TokenKind where
  /-- An identifier or a keyword; `escaped` when it is spelled with an escape. -/
  | word (name : String) (escaped : Bool)
  /-- A private name, without its mark. -/
  | hash (name : String)
  | punct (text : String)
  | number
  | string
  | eof
  | bad (fault : Fault)
  deriving DecidableEq, Repr, Inhabited

/-- A token: its place, and whether a line ends between the token before and it. -/
structure Token where
  kind : TokenKind
  span : Span
  newline : Bool
  deriving DecidableEq, Repr, Inhabited

namespace Lexer

/-- The characters that end a line. -/
def isLineEnd (c : Char) : Bool := c == '\n' || c == '\r' || c == '\u2028' || c == '\u2029'

/-- The blanks within a line. -/
def isBlank (c : Char) : Bool :=
  let n := c.toNat
  n == 0x09 || n == 0x0b || n == 0x0c || n == 0x20 || n == 0xa0 || n == 0xfeff || n == 0x1680 || (0x2000 ≤ n && n ≤ 0x200a) ||
    n == 0x202f || n == 0x205f || n == 0x3000

/-- What stands between two tokens, as far as it was passed. -/
structure Trivia where
  pos : Nat
  newline : Bool := false
  /-- The comments, latest first. -/
  comments : List Comment := []
  /-- The faults, latest first. -/
  errors : List Error := []
  /-- Where the first comment with a mark of markup starts; the token behind it is held to start there. -/
  legacy : Option Nat := none
  /-- Where the last such comment starts, if its fault reaches up to what follows the white space and comments behind it. -/
  open' : Option Nat := none
  deriving Inhabited

namespace Trivia

/-- A character is passed. -/
def pass (t : Trivia) (c : Char) : Trivia := { t with pos := t.pos + c.utf8Size, newline := t.newline || isLineEnd c }

/-- A few characters of one byte each are passed. -/
def skip (t : Trivia) (n : Nat) : Trivia := { t with pos := t.pos + n }

/-- A comment that starts at `start` ends here. -/
def close (t : Trivia) (isBlock : Bool) (start : Nat) (text : List Char) : Trivia :=
  { t with comments := ⟨isBlock, String.ofList text.reverse, ⟨start, t.pos⟩⟩ :: t.comments }

/-- The fault of a comment with a mark of markup ends here. -/
def settle (t : Trivia) : Trivia :=
  match t.open' with
  | some start => { t with errors := ⟨.legacyComment, ⟨start, t.pos⟩⟩ :: t.errors, open' := none }
  | none => t

/-- A comment with a mark of markup starts here. -/
def mark (t : Trivia) : Trivia := { t with legacy := t.legacy.or (some t.pos), open' := some t.pos }

end Trivia

/-- Where a passage over trivia stands. -/
inductive Mode where
  | between
  /-- In a comment up to the end of the line: where it starts, and its text so far, last character first. -/
  | line (start : Nat) (text : List Char)
  /-- In a block comment. -/
  | block (start : Nat) (text : List Char)
  deriving Inhabited

/-- Passes white space and comments, and answers what follows them. The marks of markup that open and close a comment start one up to
the end of the line, which is a fault; the closing one does so only after the end of a line. -/
def trivia : Mode → Trivia → List Char → Trivia × List Char
  | .between, t, '/' :: '/' :: rest => trivia (.line t.pos []) (t.skip 2) rest
  | .between, t, '/' :: '*' :: rest => trivia (.block t.pos []) (t.skip 2) rest
  | .between, t, '<' :: '!' :: '-' :: '-' :: rest => trivia (.line (t.pos + 1) []) (t.settle.mark.skip 4) rest
  | .between, t, '-' :: '-' :: '>' :: rest =>
    if t.newline then trivia (.line (t.pos + 3) []) (t.settle.mark.skip 3).settle rest else (t.settle, '-' :: '-' :: '>' :: rest)
  | .between, t, c :: rest =>
    if isLineEnd c || isBlank c then trivia .between (t.pass c) rest else (t.settle, c :: rest)
  | .between, t, [] => (t.settle, [])
  | .line start text, t, c :: rest =>
    if isLineEnd c then trivia .between ((t.close false start text).pass c) rest
    else trivia (.line start (c :: text)) (t.pass c) rest
  | .line start text, t, [] => ((t.close false start text).settle, [])
  | .block start text, t, '*' :: '/' :: rest => trivia .between ((t.skip 2).close true start text) rest
  | .block start text, t, c :: rest => trivia (.block start (c :: text)) (t.pass c) rest
  | .block _ _, t, [] => ({ t with errors := ⟨.openComment, ⟨t.pos, t.pos⟩⟩ :: t.errors }.settle, [])

/-- The value of a hexadecimal digit. -/
def hexValue (c : Char) : Option Nat :=
  if c.isDigit then some (c.toNat - 48)
  else if 'a' ≤ c ∧ c ≤ 'f' then some (c.toNat - 87)
  else if 'A' ≤ c ∧ c ≤ 'F' then some (c.toNat - 55)
  else none

/-- The number that hexadecimal digits stand for. -/
def hexNumber (acc : Nat) : List Char → Option Nat
  | [] => some acc
  | c :: cs => (hexValue c).bind fun d => hexNumber (16 * acc + d) cs

/-- Reads an escape of an identifier after its backslash: the character, and how many characters it takes. -/
def identEscape : List Char → Option (Char × Nat)
  | 'u' :: '{' :: cs =>
    let digits := cs.takeWhile (· != '}')
    match digits, hexNumber 0 digits with
    | [], _ => none
    | _, some n => if digits.length < cs.length then some (Char.ofNat n, digits.length + 3) else none
    | _, none => none
  | 'u' :: a :: b :: c :: d :: _ => (hexNumber 0 [a, b, c, d]).map fun n => (Char.ofNat n, 5)
  | _ => none

/-- The characters of an identifier, as it reads; what follows it; how many bytes it takes; and whether it has an escape. `skip`
characters belong to an escape that was read. -/
def word (skip : Nat) (first : Bool) : List Char → List Char × List Char × Nat × Bool
  | [] => ([], [], 0, false)
  | c :: cs =>
    match skip with
    | skip + 1 =>
      let (name, rest, size, _) := word skip first cs
      (name, rest, size + c.utf8Size, true)
    | 0 =>
      if c == '\\' then
        match identEscape cs with
        | some (d, n) =>
          if (if first then Text.isIdentStart d else Text.isIdentPart d) then
            let (name, rest, size, _) := word n false cs
            (d :: name, rest, size + 1, true)
          else ([], c :: cs, 0, false)
        | none => ([], c :: cs, 0, false)
      else if (if first then Text.isIdentStart c else Text.isIdentPart c) then
        let (name, rest, size, escaped) := word 0 false cs
        (c :: name, rest, size + c.utf8Size, escaped)
      else ([], c :: cs, 0, false)

/-- Reads the rest of a string after its quote: how many bytes it takes, whether it is closed, and what follows. -/
def stringEnd (quote : Char) (size : Nat) : List Char → Nat × Bool × List Char
  | [] => (size, false, [])
  | '\\' :: '\r' :: '\n' :: cs => stringEnd quote (size + 3) cs
  | '\\' :: c :: cs => stringEnd quote (size + 1 + c.utf8Size) cs
  | c :: cs =>
    if c == quote then (size + 1, true, cs)
    else if c == '\n' || c == '\r' then (size, false, c :: cs)
    else stringEnd quote (size + c.utf8Size) cs

/-- Whether the escapes of a string are ones that there are: `x` takes two hexadecimal digits, and `u` four, or some in braces. -/
def escapesWell : List Char → Bool
  | '\\' :: 'x' :: cs =>
    match cs with
    | a :: b :: _ => (hexNumber 0 [a, b]).isSome && escapesWell cs
    | _ => false
  | '\\' :: 'u' :: '{' :: cs =>
    let ds := cs.takeWhile (· != '}')
    !ds.isEmpty && ds.length < cs.length && (hexNumber 0 ds).any (· ≤ 0x10ffff) && escapesWell cs
  | '\\' :: 'u' :: cs =>
    match cs with
    | a :: b :: c :: d :: _ => (hexNumber 0 [a, b, c, d]).isSome && escapesWell cs
    | _ => false
  | '\\' :: _ :: cs => escapesWell cs
  | ['\\'] => false
  | _ :: cs => escapesWell cs
  | [] => true

/-- Reads a piece of a template: its size with the mark at its end, that mark, and what follows. The mark is a backtick, or `{` when
an expression follows. -/
def templatePiece (size : Nat) : List Char → Option (Nat × Char × List Char)
  | [] => none
  | '\\' :: c :: cs => templatePiece (size + 1 + c.utf8Size) cs
  | '$' :: '{' :: cs => some (size + 2, '{', cs)
  | c :: cs => if c == '\x60' then some (size + 1, '\x60', cs) else templatePiece (size + c.utf8Size) cs

/-- Reads the body of a regular expression after its slash: its size with the closing slash, and what follows. -/
def regExpBody (inClass : Bool) (size : Nat) : List Char → Option (Nat × List Char)
  | [] => none
  | '\\' :: c :: cs => if isLineEnd c then none else regExpBody inClass (size + 1 + c.utf8Size) cs
  | c :: cs =>
    if isLineEnd c then none
    else if c == '[' then regExpBody true (size + 1) cs
    else if c == ']' then regExpBody false (size + 1) cs
    else if c == '/' && !inClass then some (size + 1, cs)
    else regExpBody inClass (size + c.utf8Size) cs

/-- Reads digits with separators between them. -/
def digits (isDigit : Char → Bool) (cs : List Char) : List Char × List Char :=
  let p := fun c => isDigit c || c == '_'
  (cs.takeWhile p, cs.dropWhile p)

/-- The rest of a number after its digits: a sign of a large integer is passed, and a name may not follow. -/
def numberTail (size : Nat) (isInteger : Bool) (cs : List Char) : TokenKind × Nat × List Char :=
  let (size, cs) := match cs with
    | 'n' :: rest => if isInteger then (size + 1, rest) else (size, cs)
    | _ => (size, cs)
  match cs with
  | c :: _ => if Text.isIdentStart c then (.bad .badNumber, size, cs) else (.number, size, cs)
  | [] => (.number, size, cs)

/-- Reads the exponent of a number, if it has one. -/
def exponent (size : Nat) (isInteger : Bool) (cs : List Char) : TokenKind × Nat × List Char :=
  match cs with
  | e :: rest =>
    if e == 'e' || e == 'E' then
      let (sign, rest') := match rest with
        | '+' :: r => (1, r)
        | '-' :: r => (1, r)
        | r => (0, r)
      let (ds, after) := digits Char.isDigit rest'
      if ds.isEmpty then (.bad .badNumber, size, cs) else numberTail (size + 1 + sign + ds.length) false after
    else numberTail size isInteger cs
  | [] => (.number, size, [])

/-- Reads a number: its kind, its size, and what follows. -/
def number (cs : List Char) : TokenKind × Nat × List Char :=
  let based := fun (p : Char → Bool) (rest : List Char) =>
    let (ds, after) := digits p rest
    if ds.isEmpty then (TokenKind.bad .badNumber, 2, rest) else numberTail (2 + ds.length) true after
  match cs with
  | '0' :: 'x' :: rest | '0' :: 'X' :: rest => based (fun c => (hexValue c).isSome) rest
  | '0' :: 'o' :: rest | '0' :: 'O' :: rest => based (fun c => '0' ≤ c && c ≤ '7') rest
  | '0' :: 'b' :: rest | '0' :: 'B' :: rest => based (fun c => c == '0' || c == '1') rest
  | _ =>
    let (ds, rest) := digits Char.isDigit cs
    match rest with
    | '.' :: more =>
      let (fs, after) := digits Char.isDigit more
      exponent (ds.length + 1 + fs.length) false after
    | _ => exponent ds.length true rest

/-- The punctuation of more than one character, longest first. -/
def puncts : List String :=
  [">>>=", "...", "===", "!==", "**=", "<<=", ">>=", ">>>", "&&=", "||=", "??=", "=>", "==", "!=", "<=", ">=", "&&", "||", "??",
    "?.", "++", "--", "+=", "-=", "*=", "/=", "%=", "&=", "|=", "^=", "<<", ">>", "**"]

/-- The characters that are punctuation by themselves. -/
def isPunct (c : Char) : Bool :=
  "\x7b\x7d()[];,<>+-*/%&|^!~?:=.@\x60".toList.contains c

/-- Reads punctuation. A `?.` before a digit is a `?`. -/
def punct (c : Char) (cs : List Char) : TokenKind × Nat × List Char :=
  match puncts.find? fun p => Text.begins p.toList (c :: cs) with
  | some p =>
    if p == "?." && (cs.drop 1).head?.any Char.isDigit then (.punct "?", 1, cs)
    else (.punct p, p.length, cs.drop (p.length - 1))
  | none => if isPunct c then (.punct (String.ofList [c]), 1, cs) else (.bad .badCharacter, c.utf8Size, cs)

/-- Reads a token at a place where no trivia stands: its kind, its size, and what follows. -/
def scan (cs : List Char) : TokenKind × Nat × List Char :=
  match cs with
  | [] => (.eof, 0, [])
  | c :: rest =>
    if c == '\x22' || c == '\x27' then
      let (size, _, after) := stringEnd c 1 rest
      (if escapesWell (rest.take (rest.length - after.length)) then .string else .bad .badEscape, size, after)
    else if c.isDigit || (c == '.' && rest.head?.any Char.isDigit) then number (c :: rest)
    else if c == '#' then
      match word 0 true rest with
      | ([], _, _, _) => (.bad .badCharacter, 1, rest)
      | (name, after, size, _) => (.hash (String.ofList name), size + 1, after)
    else
      match word 0 true (c :: rest) with
      | ([], _, _, _) => punct c rest
      | (name, after, size, escaped) => (.word (String.ofList name) escaped, size, after)

/-- Whether the string that starts a text is closed. -/
def isClosedString : List Char → Bool
  | [] => true
  | q :: cs => (stringEnd q 1 cs).2.1

end Lexer

end Script

end TypedSfc
