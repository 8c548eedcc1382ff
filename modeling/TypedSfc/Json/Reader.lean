import TypedSfc.Json.Fault
import TypedSfc.Json.Value
import TypedSfc.Text.Bytes

/-!
# Reading JSON

A reader goes through a text once and stops at its first fault. A fault at a character that was not read yet lies behind its first
byte; any other lies where the reading stands.
-/

namespace TypedSfc

namespace Json

/-- Where a reading stands. -/
structure State where
  position : Nat
  rest : List Char
  deriving DecidableEq, Repr, Inhabited

/-- What a reader comes to. -/
inductive Outcome (α : Type) where
  | ok (value : α) (state : State)
  | fail (error : Error) (state : State)

/-- A reader. -/
def Reader (α : Type) : Type := State → Outcome α

namespace Reader

/-- The reader that reads nothing. -/
def ret {α : Type} (a : α) : Reader α := fun s => .ok a s

/-- One reader after another. -/
def andThen {α β : Type} (p : Reader α) (f : α → Reader β) : Reader β := fun s =>
  match p s with
  | .ok a s => f a s
  | .fail e s => .fail e s

instance : Monad Reader where
  pure := ret
  bind := andThen

instance {α : Type} : Inhabited (Reader α) := ⟨fun s => .fail ⟨.noValue, none⟩ s⟩

/-- Stops with a fault where the reading stands. -/
def fail {α : Type} (f : Fault) : Reader α := fun s => .fail ⟨f, some s.position⟩ s

/-- Stops with a fault at the next character. -/
def failNext {α : Type} (f : Fault) : Reader α := fun s =>
  .fail ⟨f, some (if s.rest.isEmpty then s.position else s.position + 1)⟩ s

/-- Stops with a fault that is placed later. -/
def failWhole {α : Type} (f : Fault) : Reader α := fun s => .fail ⟨f, none⟩ s

/-- The next character. -/
def peek : Reader (Option Char) := fun s => .ok s.rest.head? s

/-- Passes a character. -/
def skip : Reader Unit := fun s =>
  match s.rest with
  | [] => .ok () s
  | c :: cs => .ok () ⟨s.position + c.utf8Size, cs⟩

/-- Whether a character is white space between tokens. -/
def isBlank (c : Char) : Bool := c == ' ' || c == '\n' || c == '\t' || c == '\r'

/-- Passes white space, and tells the character after it. -/
def next : Reader (Option Char) := fun s =>
  let blank := s.rest.takeWhile isBlank
  let rest := s.rest.dropWhile isBlank
  .ok rest.head? ⟨s.position + blank.length, rest⟩

/-- Repeats a reader until it has nothing more; `fuel` bounds the repetitions. -/
def repeatUpTo {α : Type} (p : Reader (Option α)) : Nat → Reader (List α)
  | 0 => pure []
  | fuel + 1 => do
    match ← p with
    | none => pure []
    | some a => do
      let as ← repeatUpTo p fuel
      pure (a :: as)

/-- Repeats a reader until it has nothing more. Each repetition takes a character at least. -/
def many {α : Type} (p : Reader (Option α)) : Reader (List α) := fun s => repeatUpTo p (s.rest.length + 1) s

/-- Reads what stands between brackets. What closes it is looked for also after a fault, and a fault without a place gets it then. -/
def between {α : Type} (body : Reader α) (close : Reader Unit) : Reader α := fun s =>
  let settle := fun (e : Error) (s : State) => Outcome.fail { e with position := some (e.position.getD s.position) } s
  match body s with
  | .ok a s =>
    match close s with
    | .ok _ s => .ok a s
    | .fail e s => settle e s
  | .fail e s =>
    match close s with
    | .ok _ s | .fail _ s => settle e s

/-! ## Words and numbers -/

/-- Reads the given characters. -/
def word : List Char → Reader Unit
  | [] => pure ()
  | c :: cs => do
    match ← peek with
    | none => fail .endInValue
    | some d =>
      if c == d then
        skip
        word cs
      else failNext .badWord

/-- Reads all digits that come. -/
def digits : Reader (List Char) := fun s =>
  let ds := s.rest.takeWhile Char.isDigit
  .ok ds ⟨s.position + ds.length, s.rest.dropWhile Char.isDigit⟩

/-- The digits of a number as a number. -/
def value (ds : List Char) : Nat := ds.foldl (fun n d => 10 * n + (d.toNat - 48)) 0

/-- As many of the first digits as fit 64 bits, as a number, and the digits left. -/
def significand (n : Nat) : List Char → Nat × List Char
  | [] => (n, [])
  | d :: ds =>
    let m := 10 * n + (d.toNat - 48)
    if m < Nat.pow 2 64 then significand m ds else (n, d :: ds)

/-- A power of ten as a float. -/
def power (k : Nat) : Float := Float.ofScientific 1 false k

/-- Divides a float by a power of ten, in steps that floats can hold; `fuel` bounds them. -/
def divided : Nat → Float → Nat → Float
  | 0, x, _ => x
  | fuel + 1, x, k => if k ≤ 308 then x / power k else divided fuel (x / power 308) (k - 308)

/-- A whole number scaled by a power of ten, as a float. -/
def scaled (isNegative : Bool) (n : Nat) (k : Int) : Reader Number := do
  let sign := fun (x : Float) => Number.float (if isNegative then -x else x)
  let x := n.toUInt64.toFloat
  if k ≤ 0 then pure (sign (divided 8 x (min 2000 (-k).toNat)))
  else if n = 0 then pure (sign x)
  else if 308 < k then fail .outOfRange
  else
    let y := x * power k.toNat
    if y.isInf then fail .outOfRange else pure (sign y)

/-- Reads an exponent, of which the letter is next. -/
def exponent (isNegative : Bool) (n : Nat) (k : Int) : Reader Number := do
  skip
  let sign ← peek
  if sign == some '+' || sign == some '-' then skip
  match ← peek with
  | none => fail .endInValue
  | some c =>
    if c.isDigit then
      let e := value (← digits)
      let e := min e (Nat.pow 2 31)
      if sign == some '-' then scaled isNegative n (k - e) else scaled isNegative n (k + e)
    else failNext .badNumber

/-- Reads an exponent if there is one. -/
def optionalExponent (isNegative : Bool) (n : Nat) (k : Int) : Reader Number := do
  match ← peek with
  | some 'e' | some 'E' => exponent isNegative n k
  | _ => scaled isNegative n k

/-- Reads the digits behind the point, which is next. -/
def fraction (isNegative : Bool) (n : Nat) (k : Int) : Reader Number := do
  skip
  match ← digits with
  | [] => do
    match ← peek with
    | none => failNext .endInValue
    | some _ => failNext .badNumber
  | ds =>
    let (m, left) := significand n ds
    optionalExponent isNegative m (k - ((ds.length - left.length : Nat) : Int))

/-- A number of the given digits, when neither a point nor an exponent follows. -/
def whole (isNegative : Bool) (n : Nat) : Number :=
  if !isNegative then .natural n
  else if n = 0 ∨ Nat.pow 2 63 < n then .float (-n.toUInt64.toFloat)
  else .negative n

/-- Reads a number after its sign. -/
def number (isNegative : Bool) : Reader Number := do
  match ← peek with
  | none => fail .endInValue
  | some c =>
    if !c.isDigit then failNext .badNumber
    else
      if c == '0' then skip
      let ds ← if c == '0' then pure [] else digits
      let again ← peek
      if c == '0' && again.any Char.isDigit then failNext .badNumber
      else
        let (n, left) := significand 0 ds
        let k : Int := left.length
        match again with
        | some '.' => fraction isNegative n k
        | some 'e' | some 'E' => exponent isNegative n k
        | _ => if left.isEmpty then pure (whole isNegative n) else scaled isNegative n k

/-! ## Strings -/

/-- The value of a hexadecimal digit. -/
def hexValue (c : Char) : Option Nat :=
  if c.isDigit then some (c.toNat - 48)
  else if 'a' ≤ c ∧ c ≤ 'f' then some (c.toNat - 87)
  else if 'A' ≤ c ∧ c ≤ 'F' then some (c.toNat - 55)
  else none

/-- Reads the four digits of an escape. -/
def hex : Reader Nat := fun s =>
  match s.rest with
  | a :: b :: c :: d :: rest =>
    let size := a.utf8Size + b.utf8Size + c.utf8Size + d.utf8Size
    match hexValue a, hexValue b, hexValue c, hexValue d with
    | some a, some b, some c, some d => .ok (((a * 16 + b) * 16 + c) * 16 + d) ⟨s.position + size, rest⟩
    | _, _, _, _ => .fail ⟨.badEscape, some (s.position + 4)⟩ s
  | rest => .fail ⟨.endInString, some (s.position + Text.size rest)⟩ s

/-- Reads a character that must stand between the two halves of an escaped pair. -/
def expectHalf (c : Char) : Reader Unit := do
  match ← peek with
  | none => fail .endInString
  | some d => if c == d then skip else failNext .brokenSurrogate

/-- Reads the rest of an escape of one or two units. -/
def unicode : Reader Char := do
  let n ← hex
  if 0xdc00 ≤ n ∧ n ≤ 0xdfff then fail .loneSurrogate
  else if n < 0xd800 ∨ 0xdbff < n then pure (Char.ofNat n)
  else
    expectHalf '\\'
    expectHalf 'u'
    let m ← hex
    if m < 0xdc00 ∨ 0xdfff < m then fail .loneSurrogate
    else pure (Char.ofNat (0x10000 + (n - 0xd800) * 0x400 + (m - 0xdc00)))

/-- The characters of the short escapes. -/
def shortEscapes : List (Char × Char) :=
  [('\x22', '\x22'), ('\\', '\\'), ('/', '/'), ('b', '\x08'), ('f', '\x0c'), ('n', '\n'), ('r', '\r'), ('t', '\t')]

/-- Reads an escape after its backslash; where the value does not matter, surrogates may stand alone. -/
def escape (matters : Bool) : Reader Char := do
  match ← peek with
  | none => fail .endInString
  | some 'u' => do
    skip
    if matters then unicode
    else do
      let _ ← hex
      pure 'u'
  | some c =>
    match shortEscapes.lookup c with
    | some d => do
      skip
      pure d
    | none => failNext .badEscape

/-- Reads a string after its first quote. -/
def string (matters : Bool) : Reader String := do
  let cs ← many do
    match ← peek with
    | none => fail .endInString
    | some '\x22' => pure none
    | some '\\' => do
      skip
      let c ← escape matters
      pure (some c)
    | some c =>
      if c.toNat < 0x20 then if matters then failNext .controlCharacter else fail .controlCharacter
      else do
        skip
        pure (some c)
  skip
  pure (String.ofList cs)

/-! ## Lists and objects -/

/-- Goes to the next element of a list, if there is one; `first` tells whether none was read. -/
def nextElement (first : Bool) : Reader Bool := do
  match ← next with
  | none => failNext .endInList
  | some ']' => pure false
  | some c =>
    if first then pure true
    else if c == ',' then do
      skip
      match ← next with
      | none => failNext .endInValue
      | some ']' => failNext .trailingComma
      | some _ => pure true
    else failNext .noCommaInList

/-- Reads the bracket that closes a list. -/
def closeList : Reader Unit := do
  match ← next with
  | none => failNext .endInList
  | some ']' => skip
  | some ',' => do
    skip
    match ← next with
    | some ']' => failNext .trailingComma
    | _ => failNext .trailingText
  | some _ => failNext .trailingText

/-- Goes to the next key of an object, if there is one, and reads it. -/
def nextKey (first : Bool) : Reader (Option String) := do
  let key : Reader (Option String) := do
    skip
    let k ← string true
    pure (some k)
  match ← next with
  | none => failNext .endInObject
  | some '}' => pure none
  | some c =>
    if first then if c == '\x22' then key else failNext .noKey
    else if c == ',' then do
      skip
      match ← next with
      | none => failNext .endInValue
      | some '\x22' => key
      | some '}' => failNext .trailingComma
      | some _ => failNext .noKey
    else failNext .noCommaInObject

/-- Reads the colon behind a key. -/
def colon : Reader Unit := do
  match ← next with
  | none => failNext .endInObject
  | some ':' => skip
  | some _ => failNext .noColon

/-- Reads the brace that closes an object. -/
def closeObject : Reader Unit := do
  match ← next with
  | none => failNext .endInObject
  | some '}' => skip
  | some ',' => failNext .trailingComma
  | some _ => failNext .trailingText

/-- Reads the elements of a list after its bracket. -/
def elements {α : Type} (p : Reader α) : Reader (List α) := do
  if ← nextElement true then
    let a ← p
    let as ← many do
      if ← nextElement false then do
        let a ← p
        pure (some a)
      else pure none
    pure (a :: as)
  else pure []

/-- Reads the entries of an object after its brace; the reader of a value is told its key, and is to read the colon first. -/
def entries {α : Type} (p : String → Reader α) : Reader (List α) := do
  match ← nextKey true with
  | none => pure []
  | some k => do
    let a ← p k
    let as ← many do
      match ← nextKey false with
      | none => pure none
      | some k => do
        let a ← p k
        pure (some a)
    pure (a :: as)

/-- Reads a value of any form; what stands in a list or an object is read as given, if it may nest so deep. -/
def valueWith (inner : Option (Reader Value)) : Reader Value := do
  match ← next with
  | none => failNext .endInValue
  | some 'n' => do
    word ['n', 'u', 'l', 'l']
    pure .null
  | some 't' => do
    word ['t', 'r', 'u', 'e']
    pure (.bool true)
  | some 'f' => do
    word ['f', 'a', 'l', 's', 'e']
    pure (.bool false)
  | some '-' => do
    skip
    let n ← number true
    pure (.number n)
  | some '\x22' => do
    skip
    let s ← string true
    pure (.text s)
  | some '[' =>
    match inner with
    | none => failNext .tooDeep
    | some p => do
      skip
      let vs ← between (elements p) closeList
      pure (.list vs)
  | some '{' =>
    match inner with
    | none => failNext .tooDeep
    | some p => do
      skip
      let es ← between (entries fun k => do
        colon
        let v ← p
        pure (k, v)) closeObject
      pure (.object es)
  | some c =>
    if c.isDigit then do
      let n ← number false
      pure (.number n)
    else failNext .noValue

/-- Reads a value of any form. Lists and objects may nest to a depth. -/
def any : Nat → Reader Value
  | 0 => valueWith none
  | depth + 1 => valueWith (some (any depth))

/-- Stops because a value of another form was to come. What the value is goes into the message; of a list or an object only its
bracket is looked at. -/
def mismatch {α : Type} (wanted : String) : Reader α := do
  match ← peek with
  | some '[' => fail (.mismatch (Value.describe (.list [])) wanted)
  | some '{' => fail (.mismatch (Value.describe (.object [])) wanted)
  | _ => do
    let v ← any 0
    fail (.mismatch v.describe wanted)

/-- Reads a value of a form, which may nest to a depth. -/
def shaped (depth : Nat) : Shape → Reader Value
  | .text => do
    match ← next with
    | none => failNext .endInValue
    | some '\x22' => do
      skip
      let s ← string true
      pure (.text s)
    | some _ => mismatch Shape.text.describe
  | .flag => do
    match ← next with
    | none => failNext .endInValue
    | some 't' | some 'f' => any depth
    | some _ => mismatch Shape.flag.describe
  | .number => do
    match ← next with
    | none => failNext .endInValue
    | some c => if c == '-' || c.isDigit then any depth else mismatch Shape.number.describe
  | .list s => do
    match ← next with
    | none => failNext .endInValue
    | some '[' =>
      match depth with
      | 0 => failNext .tooDeep
      | depth + 1 => do
        skip
        let vs ← between (elements (shaped depth s)) closeList
        pure (.list vs)
    | some _ => mismatch (Shape.list s).describe
  | .table s => do
    match ← next with
    | none => failNext .endInValue
    | some '{' =>
      match depth with
      | 0 => failNext .tooDeep
      | depth + 1 => do
        skip
        let es ← between (entries fun k => do
          colon
          let v ← shaped depth s
          pure (k, v)) closeObject
        pure (.object es)
    | some _ => mismatch (Shape.table s).describe
  | .choice name ss => do
    let v ← any depth
    if fitsOne ss v then pure v else failWhole (.noChoice name)

/-- Reads a value of a form, or nothing where `null` stands. -/
def optional (depth : Nat) (s : Shape) : Reader (Option Value) := do
  match ← next with
  | some 'n' => do
    word ['n', 'u', 'l', 'l']
    pure none
  | _ => do
    let v ← shaped depth s
    pure (some v)

/-! ## Values that do not matter -/

/-- Passes digits, and tells whether there are any. -/
def passDigits : Reader Bool := do
  let ds ← digits
  pure !ds.isEmpty

/-- Passes an exponent, of which the letter is next. -/
def passExponent : Reader Unit := do
  skip
  let sign ← peek
  if sign == some '+' || sign == some '-' then skip
  if ← passDigits then pure () else failNext .badNumber

/-- Passes a number after its sign. -/
def passNumber : Reader Unit := do
  match ← peek with
  | some '0' => do
    skip
    if (← peek).any Char.isDigit then failNext .badNumber
  | _ => do
    if ← passDigits then pure () else failNext .badNumber
  match ← peek with
  | some '.' => do
    skip
    if ← passDigits then
      let e ← peek
      if e == some 'e' || e == some 'E' then passExponent
    else failNext .badNumber
  | some 'e' | some 'E' => passExponent
  | _ => pure ()

/-- Passes a key and its colon. -/
def passKey : Reader Unit := do
  match ← next with
  | none => failNext .endInObject
  | some '\x22' => do
    skip
    let _ ← string false
    colon
  | some _ => failNext .noKey

/-- What a list or an object is closed with. -/
def closer (isObject : Bool) : Char := if isObject then '}' else ']'

/-- Goes on in the innermost of the lists and objects that are open, to its next value or past its end; `after` tells whether a value
stands before. Answers what is open then, and stops when nothing is. `fuel` bounds the brackets that close. -/
def passOn : Nat → Bool → List Bool → Reader (List Bool)
  | _, _, [] => pure []
  | 0, _, open' => pure open'
  | fuel + 1, after, isObject :: outer => do
    let stay : Reader (List Bool) := do
      if isObject then passKey
      pure (isObject :: outer)
    match ← next with
    | none => failNext (if isObject then .endInObject else .endInList)
    | some c =>
      if after && c == ',' then do
        skip
        stay
      else if c == closer isObject then do
        skip
        passOn fuel true outer
      else if after then failNext (if isObject then .noCommaInObject else .noCommaInList)
      else stay

/-- Passes a value that stands in some lists and objects, and all that is in them; `fuel` bounds the values. -/
def passUpTo : Nat → List Bool → Reader Unit
  | 0, _ => pure ()
  | fuel + 1, open' => do
    let opened : Bool → Reader (List Bool) := fun isObject => do
      skip
      passOn fuel false (isObject :: open')
    let closed : Reader Unit → Reader (List Bool) := fun p => do
      p
      passOn fuel true open'
    let left ← match ← next with
      | none => failNext .endInValue
      | some 'n' => closed (word ['n', 'u', 'l', 'l'])
      | some 't' => closed (word ['t', 'r', 'u', 'e'])
      | some 'f' => closed (word ['f', 'a', 'l', 's', 'e'])
      | some '-' => closed (do
        skip
        passNumber)
      | some '\x22' => closed (do
        skip
        let _ ← string false)
      | some '[' => opened false
      | some '{' => opened true
      | some c => if c.isDigit then closed passNumber else failNext .noValue
    if left.isEmpty then pure () else passUpTo fuel left

/-- Passes a value of any form and any depth. -/
def pass : Reader Unit := fun s => passUpTo (s.rest.length + 2) [] s

/-- Reads the end of the text. -/
def done : Reader Unit := do
  match ← next with
  | none => pure ()
  | some _ => failNext .trailingText

end Reader

/-- The depth to which lists and objects may nest. -/
def depthLimit : Nat := 127

/-- Reads a whole text. -/
def Reader.run {α : Type} (p : Reader α) (source : String) : Except Error α :=
  let whole : Reader α := do
    let a ← p
    done
    pure a
  match whole ⟨0, source.toList⟩ with
  | .ok a _ => .ok a
  | .fail e _ => .error e

/-- The value of a text. -/
def Value.read (source : String) : Except Error Value := Reader.run (Reader.any depthLimit) source

end Json

end TypedSfc
