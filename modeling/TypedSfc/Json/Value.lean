import TypedSfc.Json.Decimal
import TypedSfc.Text.Space

/-!
# Values of JSON

A value keeps the keys of an object in the order in which they are written, repeated ones too.
-/

namespace TypedSfc

namespace Json

/-- A number: a whole one as such if it fits 64 bits, and any other as a float. -/
inductive Number where
  | natural (n : Nat)
  /-- The negative of a number. -/
  | negative (n : Nat)
  | float (x : Float)
  deriving Inhabited

/-- The number as a float. -/
def Number.toFloat : Number → Float
  | natural n => n.toUInt64.toFloat
  | negative n => -n.toUInt64.toFloat
  | float x => x

/-- A value. -/
inductive Value where
  | null
  | bool (b : Bool)
  | number (n : Number)
  | text (s : String)
  | list (vs : List Value)
  | object (entries : List (String × Value))
  deriving Inhabited

/-- Whether a character shows nothing of its own, or only changes the one before it. -/
def isHidden (c : Char) : Bool :=
  let n := c.toNat
  n < 0x20 || (0x7f ≤ n && n < 0xa0) || n == 0xad || (0x300 ≤ n && n ≤ 0x36f) || (0x200b ≤ n && n ≤ 0x200f) ||
    (0x2028 ≤ n && n ≤ 0x202e) || (0x2060 ≤ n && n ≤ 0x206f) || (0xe000 ≤ n && n ≤ 0xf8ff) || (0xfe00 ≤ n && n ≤ 0xfe0f) ||
    n == 0xfeff || (0xfff0 ≤ n && n ≤ 0xfffb) || (0xe0000 ≤ n) || (n != 0x20 && Text.isSpace c)

/-- A character in a quoted text of a message. -/
def shownChar (c : Char) : List Char :=
  match c with
  | '\x00' => ['\\', '0']
  | '\t' => ['\\', 't']
  | '\r' => ['\\', 'r']
  | '\n' => ['\\', 'n']
  | '\\' => ['\\', '\\']
  | '\x22' => ['\\', '\x22']
  | c => if isHidden c then ['\\', 'u', '{'] ++ Nat.toDigits 16 c.toNat ++ ['}'] else [c]

/-- A text in quotes, as messages show it. -/
def shown (s : String) : String :=
  String.ofList ('\x22' :: s.toList.flatMap shownChar ++ ['\x22'])

/-- What a message calls a value. -/
def Value.describe : Value → String
  | null => "null"
  | bool b => "boolean \x60" ++ toString b ++ "\x60"
  | number (.natural n) => "integer \x60" ++ toString n ++ "\x60"
  | number (.negative n) => "integer \x60-" ++ toString n ++ "\x60"
  | number (.float x) => "floating point \x60" ++ floatText x ++ "\x60"
  | text s => "string " ++ shown s
  | list _ => "sequence"
  | object _ => "map"

/-- The forms that a value may be asked to have. -/
inductive Shape where
  | text
  | flag
  | number
  | list (element : Shape)
  /-- An object with any keys. -/
  | table (value : Shape)
  /-- One of several forms, under the name that messages use for the choice. -/
  | choice (name : String) (shapes : List Shape)
  deriving Inhabited

mutual

/-- Whether a value has a form. -/
def Shape.fits : Shape → Value → Bool
  | .text, .text _ => true
  | .flag, .bool _ => true
  | .number, .number _ => true
  | .list s, .list vs => vs.all fun v => s.fits v
  | .table s, .object es => es.all fun e => s.fits e.2
  | .choice _ ss, v => fitsOne ss v
  | _, _ => false

/-- Whether a value has one of some forms. -/
def fitsOne : List Shape → Value → Bool
  | [], _ => false
  | s :: ss, v => s.fits v || fitsOne ss v

end

/-- What a message says was to come for a form. -/
def Shape.describe : Shape → String
  | .text => "a string"
  | .flag => "a boolean"
  | .number => "f64"
  | .list _ => "a sequence"
  | .table _ => "a map"
  | .choice name _ => name

end Json

end TypedSfc
