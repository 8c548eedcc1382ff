import TypedSfc.Options.Read
import TypedSfc.Text.Bytes

/-!
# Options of a file

A comment of a document sets an option when one of its lines is a `@`, the key and a value of JSON. The first such line of a comment
counts, and no other; what does not fit its option is passed over.
-/

namespace TypedSfc

namespace Options

open Json (Value)

mutual

/-- A value with the entries of its objects by their keys, each key once with its last value. -/
def sorted : Value → Value
  | .list vs => .list (sortedAll vs)
  | .object es =>
    .object ((Keyed.ofList (sortedEntries es)).entries.mergeSort fun a b => !decide (b.1 < a.1))
  | v => v

/-- Values with their entries by their keys. -/
def sortedAll : List Value → List Value
  | [] => []
  | v :: vs => sorted v :: sortedAll vs

/-- Entries whose values have their entries by their keys. -/
def sortedEntries : List (String × Value) → List (String × Value)
  | [] => []
  | (k, v) :: es => (k, sorted v) :: sortedEntries es

end

/-- The characters of a key. -/
def isKeyChar (c : Char) : Bool := c.isAlphanum || c == '_'

/-- The key and the value of a line that sets an option. -/
def optionLine? (line : List Char) : Option (String × String) :=
  match Text.trimStart line with
  | '@' :: rest =>
    let key := rest.takeWhile isKeyChar
    let value := rest.dropWhile isKeyChar
    if key.isEmpty || value.isEmpty then none else some (String.ofList key, String.ofList value)
  | _ => none

/-- The lines of a text; a return before a line feed belongs to the end of the line. -/
def lines (cs : List Char) : List (List Char) :=
  let rec go : List Char → List Char → List (List Char)
    | line, [] => if line.isEmpty then [] else [line.reverse]
    | line, '\n' :: cs =>
      (match line with
        | '\r' :: line => line.reverse
        | line => line.reverse) :: go [] cs
    | line, c :: cs => go (c :: line) cs
  go [] cs

/-- The layer that one value under one key sets; none if the value does not fit. -/
def Layer.ofEntry? (key : String) (v : Value) : Option Layer :=
  match Field.ofKey? key, v with
  | none, _ | _, .null => some {}
  | some f, v => if f.shape.fits v then some (Layer.set {} v f) else none

/-- The layer that a comment sets. -/
def Layer.ofComment? (comment : String) : Option Layer := do
  let (key, value) ← (lines comment.toList).findSome? optionLine?
  match Value.read value with
  | .ok v => Layer.ofEntry? key (sorted v)
  | .error _ => none

/-- The layer that the comments of a document set, if one of them sets any. -/
def Layer.ofComments? (comments : List String) : Option Layer :=
  match comments.filterMap Layer.ofComment? with
  | [] => none
  | ls => some (ls.foldl (fun earlier later => later.onto earlier) {})

/-- Options with what the comments of a document set. -/
def withComments (o : Options) (comments : List String) : Options :=
  match Layer.ofComments? comments with
  | some l => o.withLayer (Layer.stack [l])
  | none => o

end Options

end TypedSfc
