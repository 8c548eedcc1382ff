import TypedSfc.Generate.Context
import TypedSfc.Script.References

/-!
# Expressions

An expression of the template is written as it stands, but that its free names are read from the component. Names that the template
declares, the usual globals and the names of the generated code stay as they are.
-/

namespace TypedSfc

namespace Generate

open Script (Reference)

/-- The globals that a template may use. -/
def allowedGlobals : List String :=
  ["Infinity", "undefined", "NaN", "isFinite", "isNaN", "parseFloat", "parseInt", "decodeURI", "decodeURIComponent", "encodeURI",
    "encodeURIComponent", "Math", "Number", "Date", "Array", "Object", "Boolean", "String", "RegExp", "Map", "Set", "JSON", "Intl",
    "BigInt", "console", "Error", "Symbol"]

/-- Words that are no names of the component. -/
def literalWords : List String := ["true", "false", "null", "this", "require"]

/-- Whether a name stays as it is. -/
def State.keeps (s : State) (name : String) : Bool :=
  s.isDeclared name || allowedGlobals.contains name || literalWords.contains name || Names.isSynthetic name

/-- Where an expression lands: the text that stands for a source lies behind `before` bytes, and is `length` bytes long. -/
structure Placement where
  source : SourceId
  start : Nat
  info : Info
  before : Nat
  length : Nat
  deriving DecidableEq, Repr, Inhabited

/-- Writes a piece of the whole text that stands at `pos`. What lies before or behind the mapped part is text of its own; at an outer
end an empty mapped part is left out. The piece is cut behind its mapped part and, before that cut, in front of it. -/
def piece (p : Placement) (t : List Char) (pos : Nat) (atEnd : Bool) : Gen Unit := do
  let size := Text.size t
  let stop := p.before + p.length
  let inner := if stop < pos + size then size - (pos + size - stop) else size
  let head := min (p.before - pos) inner
  let body := Text.between head inner t
  checkCut 0 inner t
  checkCut 0 head t
  text (String.ofList (Text.between 0 head t))
  if !(body.isEmpty && atEnd) then
    mapped (String.ofList body) p.source (p.start + (pos + head - p.before)) p.info
  text (String.ofList (Text.between inner size t))

/-- Cuts a piece out of the whole text, and writes it. -/
def cutPiece (p : Placement) (whole : List Char) (start stop : Nat) (atEnd : Bool) : Gen Unit := do
  checkCut start stop whole
  piece p (Text.between start stop whole) start atEnd

/-- Writes the text before a free name, and what makes it a name of the component. -/
def useName (p : Placement) (whole : List Char) (prev : Nat) (r : Reference) : Gen Unit := do
  let stop := r.offset + r.name.utf8ByteSize
  let name := r.name.toList
  if r.shorthand then
    cutPiece p whole prev stop false
    text ": "
  else
    cutPiece p whole prev r.offset (prev == 0)
  let setting ← read
  if setting.setupRefs.contains r.name then
    piece p name r.offset false
    text ".value"
  else
    piece p [] r.offset false
    if setting.dollars.contains r.name then text (Names.ofKey "dollars" ++ ".")
    else
      access r.name
      text (Names.ofKey "ctx" ++ ".")
    piece p name r.offset false

/-- Writes the whole text from `prev` on, its free names one after another. -/
def useNames (p : Placement) (whole : List Char) : Nat → List Reference → Gen Unit
  | prev, [] => do
    if prev < Text.size whole then cutPiece p whole prev (Text.size whole) true
  | prev, r :: rs => do
    if (← get).keeps r.name then useNames p whole prev rs
    else
      useName p whole prev r
      useNames p whole (r.offset + r.name.utf8ByteSize) rs

/-- The free names of an expression between two texts. A plain name need not be read as a script. -/
def namesIn (reader : Script.Reader) (front code back : String) : List Reference :=
  if Text.isPlainIdent code then [⟨code, front.utf8ByteSize, false⟩] else reader.freeNames (front ++ code ++ back)

/-- Writes an expression that stands at a place of a source, between two texts. -/
def expressionIn (source : SourceId) (code : String) (start : Nat) (i : Info) (front back : String) : Gen Unit := do
  let names := namesIn (← read).reader front code back
  useNames ⟨source, start, i, front.utf8ByteSize, code.utf8ByteSize⟩ (front ++ code ++ back).toList 0 names

/-- Writes an expression that stands at a place of the template, between two texts. -/
def expression (code : String) (start : Nat) (front back : String) : Gen Unit :=
  expressionIn SourceId.template code start Info.checked front back

/-! ## Keys -/

/-- What stands between brackets, if a text is written so. -/
def bracketed? (code : String) : Option String :=
  match code.toList with
  | '[' :: cs => if cs.getLast? == some ']' then some (String.ofList cs.dropLast) else none
  | _ => none

/-- Writes a key of an object literal. One in brackets is computed, and with `constant` it is narrowed to its own type. -/
def objectKey (code : String) (offset : Nat) (i : Info) (camelize constant : Bool) : Gen Unit := do
  match bracketed? code with
  | some inner =>
    if constant then expressionIn SourceId.template inner (offset + 1) i ("[" ++ Names.ofKey "tryAsConstant" ++ "(") ")]"
    else expressionIn SourceId.template code offset i "" ""
  | none =>
    if camelize then
      if Text.isPlainIdent (Text.camelize code) then camelized code offset i
      else
        let b ← openAt offset i
        text "\""
        onCode (·.camelizedIn b code offset)
        text "\""
        close b (offset + code.utf8ByteSize)
    else if Text.isPlainIdent code then mapped code SourceId.template offset i
    else quotedKey code offset i

/-- Writes the access to a property. -/
def propertyAccess (code : String) (offset : Nat) (i : Info) : Gen Unit := do
  if (bracketed? code).isSome then expressionIn SourceId.template code offset i "" ""
  else if Text.isPlainIdent code then
    text "."
    mapped code SourceId.template offset i
  else
    text "["
    quotedKey code offset i
    text "]"

end Generate

end TypedSfc
