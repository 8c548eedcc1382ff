/-!
# Faults of JSON

What can be wrong with a text that is read as JSON, and where.
-/

namespace TypedSfc

namespace Json

/-- What is wrong. -/
inductive Fault where
  | endInList
  | endInObject
  | endInString
  | endInValue
  | noColon
  | noCommaInList
  | noCommaInObject
  | badWord
  | noValue
  | badEscape
  | badNumber
  | outOfRange
  | controlCharacter
  | noKey
  | loneSurrogate
  | brokenSurrogate
  | trailingComma
  | trailingText
  | tooDeep
  /-- A value of another form than was to come. -/
  | mismatch (found wanted : String)
  /-- A value of none of the forms of a choice. -/
  | noChoice (name : String)
  /-- A key that is given twice. -/
  | duplicate (key : String)
  /-- A list with too few elements. -/
  | tooShort (length : Nat) (wanted : String)
  deriving DecidableEq, Repr, Inhabited

/-- The wording of a fault. -/
def Fault.message : Fault → String
  | endInList => "EOF while parsing a list"
  | endInObject => "EOF while parsing an object"
  | endInString => "EOF while parsing a string"
  | endInValue => "EOF while parsing a value"
  | noColon => "expected \x60:\x60"
  | noCommaInList => "expected \x60,\x60 or \x60]\x60"
  | noCommaInObject => "expected \x60,\x60 or \x60\x7d\x60"
  | badWord => "expected ident"
  | noValue => "expected value"
  | badEscape => "invalid escape"
  | badNumber => "invalid number"
  | outOfRange => "number out of range"
  | controlCharacter => "control character (\\u0000-\\u001F) found while parsing a string"
  | noKey => "key must be a string"
  | loneSurrogate => "lone leading surrogate in hex escape"
  | brokenSurrogate => "unexpected end of hex escape"
  | trailingComma => "trailing comma"
  | trailingText => "trailing characters"
  | tooDeep => "recursion limit exceeded"
  | mismatch found wanted => "invalid type: " ++ found ++ ", expected " ++ wanted
  | noChoice name => "data did not match any variant of untagged enum " ++ name
  | duplicate key => "duplicate field \x60" ++ key ++ "\x60"
  | tooShort n wanted => "invalid length " ++ toString n ++ ", expected " ++ wanted

/-- A fault, and the position in bytes where it was found. A fault of a value as a whole has none until the reading of what is around
the value gives it one. -/
structure Error where
  fault : Fault
  position : Option Nat
  deriving DecidableEq, Repr, Inhabited

/-- The line and the column of a position, the first line being 1 and the column before its first byte 0. -/
def place (line column : Nat) : Nat → List Char → Nat × Nat
  | 0, _ | _, [] => (line, column)
  | n + 1, c :: cs =>
    if c == '\n' then place (line + 1) 0 n cs
    else if c.utf8Size ≤ n + 1 then place line (column + c.utf8Size) (n + 1 - c.utf8Size) cs
    else (line, column + n + 1)

/-- The message of an error in a text. -/
def Error.message (e : Error) (source : List Char) : String :=
  match e.position with
  | none => e.fault.message
  | some n =>
    let (line, column) := place 1 0 n source
    e.fault.message ++ " at line " ++ toString line ++ " column " ++ toString column

end Json

end TypedSfc
