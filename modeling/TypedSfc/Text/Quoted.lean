import TypedSfc.Text.Bytes

/-!
# Quotes and escapes

The two ways in which a text gets into a string literal or out of it.
-/

namespace TypedSfc

namespace Text

/-- The hexadecimal digit of a number below 16. -/
def hexDigit (n : Nat) : Char := Char.ofNat (if n < 10 then 48 + n else 87 + n)

/-- A UTF-16 unit as an escape. -/
def unitEscape (n : Nat) : List Char :=
  ['\\', 'u', hexDigit (n / 4096 % 16), hexDigit (n / 256 % 16), hexDigit (n / 16 % 16), hexDigit (n % 16)]

/-- The UTF-16 units of a character. -/
def unitsOf (c : Char) : List Nat :=
  let n := c.toNat
  if n < 0x10000 then [n] else [0xd800 + (n - 0x10000) / 0x400, 0xdc00 + (n - 0x10000) % 0x400]

/-- A text with every UTF-16 unit written as an escape. -/
def unicodeEscapes (s : String) : String :=
  String.ofList (s.toList.flatMap fun c => (unitsOf c).flatMap unitEscape)

/-- A text without one pair of equal quotes around it. -/
def unquote (s : String) : String :=
  match s.toList with
  | q :: c :: cs =>
    if (q == '\x22' || q == '\x27' || q == '\x60') && (c :: cs).getLast? == some q then String.ofList ((c :: cs).dropLast) else s
  | _ => s

end Text

end TypedSfc
