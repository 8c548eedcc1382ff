import TypedSfc.Text.Bytes

/-!
# Patterns of names

A pattern stands for names: `*` for any bytes, `?` for one byte, `[…]` for one byte of a class, `{a,b}` for one of several patterns, and
a backslash takes its meaning from what follows it. Two stars that stand alone between slashes stand for whole steps of a path.
-/

namespace TypedSfc

namespace Text

/-- A piece of a pattern. -/
inductive Glob where
  | char (c : Char)
  | any
  | star
  /-- A byte in one of some ranges, or in none of them. -/
  | set (negated : Bool) (ranges : List (Nat × Nat))
  | either (choices : List (List Glob))
  /-- `**` at the start: any number of steps. -/
  | leading
  /-- `**` between slashes. -/
  | inside
  /-- `**` at the end. -/
  | trailing
  deriving Inhabited

namespace Glob

/-- The bytes of a character. -/
def bytes (c : Char) : List Nat := (String.ofList [c]).toUTF8.toList.map UInt8.toNat

/-- All ends of a list, the list itself first. -/
def ends : List Nat → List (List Nat)
  | [] => [[]]
  | b :: bs => (b :: bs) :: ends bs

/-- What is left behind a slash, for each slash. -/
def behindSlash (bs : List Nat) : List (List Nat) :=
  (ends bs).filterMap fun
    | 47 :: rest => some rest
    | _ => none

/-- A list without what it begins with. -/
def without (start bs : List Nat) : List (List Nat) :=
  if start.isPrefixOf bs then [bs.drop start.length] else []

mutual

/-- What may be left of some bytes behind a piece. -/
def rests : Glob → List Nat → List (List Nat)
  | char c, bs => without (bytes c) bs
  | any, bs => match bs with
    | [] => []
    | _ :: bs => [bs]
  | star, bs => ends bs
  | set negated ranges, bs => match bs with
    | [] => []
    | b :: bs => if (ranges.any fun r => decide (r.1 ≤ b) && decide (b ≤ r.2)) != negated then [bs] else []
  | either choices, bs => restsOfOne choices bs
  | leading, bs => bs :: behindSlash bs
  | inside, bs => match bs with
    | 47 :: rest => rest :: behindSlash rest
    | _ => []
  | trailing, bs => match bs with
    | 47 :: rest => ends rest
    | _ => []

/-- What may be left behind some pieces. -/
def restsOfAll : List Glob → List Nat → List (List Nat)
  | [], bs => [bs]
  | g :: gs, bs => (g.rests bs).flatMap (restsOfAll gs)

/-- What may be left behind one of several lists of pieces; an empty one does not count. -/
def restsOfOne : List (List Glob) → List Nat → List (List Nat)
  | [], _ => []
  | [] :: choices, bs => restsOfOne choices bs
  | (g :: gs) :: choices, bs => restsOfAll (g :: gs) bs ++ restsOfOne choices bs

end

/-- Whether pieces stand for a name. A pattern of two stars alone stands for every name. -/
def holds (gs : List Glob) (name : String) : Bool :=
  match gs with
  | [leading] => true
  | gs => (restsOfAll gs (name.toUTF8.toList.map UInt8.toNat)).any List.isEmpty

/-! ## Reading -/

/-- The ranges of a class after its first character; `open'` tells whether a hyphen waits for the end of a range, and the latest range
comes first. -/
def classRest (ranges : List (Nat × Nat)) (open' : Bool) : List Char → Option (List (Nat × Nat) × List Char)
  | [] => none
  | ']' :: cs => some ((if open' then (45, 45) :: ranges else ranges), cs)
  | c :: cs =>
    match open', ranges with
    | true, r :: rs => if c.toNat < r.1 then none else classRest ((r.1, c.toNat) :: rs) false cs
    | _, _ => if c == '-' then classRest ranges true cs else classRest ((c.toNat, c.toNat) :: ranges) false cs

/-- A class after its bracket. -/
def class? (cs : List Char) : Option (Glob × List Char) :=
  let (negated, cs) := match cs with
    | '!' :: cs | '^' :: cs => (true, cs)
    | cs => (false, cs)
  match cs with
  | [] => none
  | c :: cs => (classRest [(c.toNat, c.toNat)] false cs).map fun (ranges, cs) => (set negated ranges, cs)

/-- The patterns that are open while one is read, the innermost first: the choices before, and the pieces so far, both latest first. -/
abbrev Open := List (List (List Glob) × List Glob)

/-- Adds a piece to the innermost pattern. -/
def put (g : Glob) : Open → Open
  | (choices, gs) :: outer => (choices, g :: gs) :: outer
  | [] => [([], [g])]

/-- Reads two stars, of which the second is passed: the pieces, and what follows. `previous` is the character before them. -/
def twoStars (previous : Option Char) (cs : List Char) (stack : Open) : Open × List Char :=
  let plain := (put star (put star stack), cs)
  match stack with
  | (_, []) :: _ | [] =>
    match cs with
    | [] => (put leading stack, [])
    | '/' :: cs => (put leading stack, cs)
    | _ => plain
  | (choices, last :: gs) :: outer =>
    let deep := decide (1 < stack.length)
    if previous != some '/' && !(deep && (previous == some ',' || previous == some '{')) then plain
    else
      let become := fun (g : Glob) => (choices, (match last with
        | leading => leading
        | trailing => trailing
        | _ => g) :: gs) :: outer
      match cs with
      | [] => (become trailing, [])
      | '/' :: cs => (become inside, cs)
      | c :: _ => if deep && (c == ',' || c == '}') then (become trailing, cs) else plain

/-- Reads a pattern; `fuel` bounds its length. A pattern that is not well formed stands for nothing. -/
def readUpTo : Nat → Option Char → Open → List Char → Option (List Glob)
  | 0, _, _, _ => none
  | _ + 1, _, stack, [] =>
    match stack with
    | [(_, gs)] => some gs.reverse
    | _ => none
  | fuel + 1, previous, stack, c :: cs =>
    match c with
    | '?' => readUpTo fuel (some c) (put any stack) cs
    | '*' =>
      match cs with
      | '*' :: cs =>
        let (stack, cs) := twoStars previous cs stack
        readUpTo fuel (some '*') stack cs
      | cs => readUpTo fuel (some c) (put star stack) cs
    | '[' => (class? cs).bind fun (g, cs) => readUpTo fuel (some ']') (put g stack) cs
    | '{' => readUpTo fuel (some c) (([], []) :: stack) cs
    | '}' =>
      match stack with
      | (choices, gs) :: outer@(_ :: _) =>
        readUpTo fuel (some c) (put (either ((gs.reverse :: choices).reverse)) outer) cs
      | _ => none
    | ',' =>
      match stack with
      | (choices, gs) :: outer@(_ :: _) => readUpTo fuel (some c) ((gs.reverse :: choices, []) :: outer) cs
      | _ => readUpTo fuel (some c) (put (char c) stack) cs
    | '\\' =>
      match cs with
      | [] => none
      | d :: cs => readUpTo fuel (some d) (put (char d) stack) cs
    | c => readUpTo fuel (some c) (put (char c) stack) cs

/-- The pieces of a pattern, if it is well formed. -/
def read? (pattern : String) : Option (List Glob) :=
  readUpTo (pattern.toList.length + 1) none [([], [])] pattern.toList

end Glob

/-- Whether a name is one that some patterns stand for. -/
def matchesOne (patterns : List String) (name : String) : Bool :=
  (patterns.filterMap Glob.read?).any fun gs => Glob.holds gs name

end Text

end TypedSfc
