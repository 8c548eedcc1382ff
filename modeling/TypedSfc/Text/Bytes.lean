/-!
# Positions in a text

Every position is a number of bytes of the UTF-8 form of the text. Scanning works on the list of characters, so a position that
is not the start of a character has no text after it: `dropBytes` and `takeBytes` answer `none` there.
-/

namespace TypedSfc

namespace Text

/-- The number of bytes of a list of characters. -/
def size : List Char → Nat
  | [] => 0
  | c :: cs => c.utf8Size + size cs

/-- The number of UTF-16 units of a list of characters. -/
def units : List Char → Nat
  | [] => 0
  | c :: cs => (if c.toNat < 0x10000 then 1 else 2) + units cs

/-- The text from byte `n` on, when a character starts there or the text ends there. -/
def dropBytes : Nat → List Char → Option (List Char)
  | 0, cs => some cs
  | _ + 1, [] => none
  | n + 1, c :: cs => if c.utf8Size ≤ n + 1 then dropBytes (n + 1 - c.utf8Size) cs else none

/-- The first `n` bytes of a text, when a character starts after them or the text ends there. -/
def takeBytes : Nat → List Char → Option (List Char)
  | 0, _ => some []
  | _ + 1, [] => none
  | n + 1, c :: cs => if c.utf8Size ≤ n + 1 then (takeBytes (n + 1 - c.utf8Size) cs).map (c :: ·) else none

/-- The bytes from `start` up to `stop` of a text. -/
def slice (start stop : Nat) (cs : List Char) : Option (List Char) :=
  if start ≤ stop then (dropBytes start cs).bind (takeBytes (stop - start)) else none

/-- The text from byte `n` on, empty when no character starts there. -/
def after (n : Nat) (cs : List Char) : List Char :=
  (dropBytes n cs).getD []

/-- The bytes from `start` up to `stop`, empty when one of the two is not a position of the text. -/
def between (start stop : Nat) (cs : List Char) : List Char :=
  (slice start stop cs).getD []

/-- Whether a text begins with `w`. -/
def begins : List Char → List Char → Bool
  | [], _ => true
  | _ :: _, [] => false
  | w :: ws, c :: cs => w == c && begins ws cs

/-- Where `w` first occurs in a text. -/
def find (w : List Char) : List Char → Option Nat
  | [] => if w.isEmpty then some 0 else none
  | c :: cs => if begins w (c :: cs) then some 0 else (find w cs).map (c.utf8Size + ·)

/-- Where the last occurrence of `w` in a text starts. -/
def findLast (w : List Char) : List Char → Option Nat
  | [] => if w.isEmpty then some 0 else none
  | c :: cs =>
    match findLast w cs with
    | some n => some (c.utf8Size + n)
    | none => if begins w (c :: cs) then some 0 else none

/-- Where the first character with property `p` stands in a text. -/
def findChar (p : Char → Bool) : List Char → Option Nat
  | [] => none
  | c :: cs => if p c then some 0 else (findChar p cs).map (c.utf8Size + ·)

/-- The text with its ASCII capitals made small; no position moves. -/
def lower (cs : List Char) : List Char :=
  cs.map Char.toLower

end Text

end TypedSfc
