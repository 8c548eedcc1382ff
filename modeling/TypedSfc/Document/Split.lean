import TypedSfc.Document.Stylesheet
import TypedSfc.Markup.Template

/-!
# Splitting a document

The content of a block is opaque, except that a template ends at the closing tag that is its own: templates inside it are counted.
A second block of a kind that may come once replaces the first and is reported.
-/

namespace TypedSfc

namespace Document

open Markup

/-- Whether a tag name may end before a text. -/
def endsTagName : List Char → Bool
  | [] => true
  | c :: _ => Text.isSpace c || c == '>' || c == '/'

/-- Whether the tag whose name ends before a text closes itself. -/
def closesItself (rest : List Char) : Bool :=
  (rest.takeWhile (· != '>')).getLast? == some '/'

/-- The name that is counted. -/
def templateName : List Char := "template".toList

/-- Where the closing tag of a template starts, in a text of small letters from `pos` on: at the first one that closes no template
inside. `before` is the text before, last character first; `skip` characters were looked at before. -/
def templateClose (depth skip pos : Nat) (before : List Char) : List Char → Option Nat
  | [] => none
  | c :: cs =>
    let next := fun depth skip => templateClose depth skip (pos + c.utf8Size) (c :: before) cs
    match skip with
    | skip + 1 => next depth skip
    | 0 =>
      if Text.begins templateName (c :: cs) then
        if endsTagName (cs.drop 7) then
          match before with
          | '/' :: '<' :: _ => if depth = 0 then some (pos - 2) else next (depth - 1) 7
          | '<' :: _ => if closesItself (cs.drop 7) then next depth 7 else next (depth + 1) 7
          | _ => next depth 7
        else next depth 7
      else next depth 0

/-- Where the closing tag of a template starts whose content starts at `pos`. -/
def findTemplateClose (source : List Char) (pos : Nat) : Option Nat :=
  let lower := Text.lower source
  templateClose 0 0 pos (Text.between 0 pos lower).reverse (Text.after pos lower)

/-- Where the closing tag of a block starts whose content starts at `pos`. -/
def findClose (source : List Char) (tag : String) (pos : Nat) : Option Nat :=
  if tag = "template" then findTemplateClose source pos
  else (Text.find ('<' :: '/' :: Text.lower tag.toList) (Text.lower (Text.after pos source))).map (pos + ·)

/-- The content of a block and its end, and the reader past it. -/
def extent (r : Reader) (t : Reader.StartTag) : Span × Nat × Reader :=
  if t.selfClosing || !t.terminated then (Span.empty t.start, t.stop, r)
  else
    match findClose r.source t.tag t.stop with
    | some close =>
      let (s, r) := (r.sync close).skipClosingTag
      (⟨t.stop, close⟩, s.stop, r)
    | none => (⟨t.stop, r.size⟩, r.size, (r.errorAt (.unclosedTag t.tag) ⟨t.start, t.stop⟩).sync r.size)

/-- Sets an attribute; the last value of a name counts, at the place of the first. -/
def setAttr (name : String) (v : BlockAttr) : List (String × BlockAttr) → List (String × BlockAttr)
  | [] => [(name, v)]
  | a :: as => if a.1 = name then (name, v) :: as else a :: setAttr name v as

/-- The attributes of a block. -/
def blockAttrs (as : List RawAttribute) : List (String × BlockAttr) :=
  as.foldl (fun acc a => setAttr a.name (match a.value with
    | some v => .value v.content v.offset v.quoted
    | none => .flag) acc) []

/-- The language of a block without a `lang`. -/
def defaultLang (tag : String) : String :=
  if tag = "template" then "html" else if tag = "script" then "js" else if tag = "style" then "css" else "txt"

/-- The block of an opening tag. -/
def blockOf (source : List Char) (t : Reader.StartTag) (inner : Span) (stop : Nat) : Block :=
  let block : Block := {
    name := t.tag
    lang := defaultLang t.tag
    outer := ⟨t.start, stop⟩
    inner := inner
    attrs := blockAttrs t.attributes
    content := String.ofList (Text.between inner.start inner.stop source) }
  { block with lang := (block.attrValue "lang").getD block.lang }

/-- What is known of a document: the blocks so far, and the faults of its template. -/
structure Draft where
  document : Document
  templateErrors : List ParseError
  deriving Inhabited

/-- Reports a second block of a kind. -/
def duplicate (r : Reader) (isSecond : Bool) (name : String) (t : Reader.StartTag) : Reader :=
  if isSecond then r.errorAt (.duplicateBlock name) ⟨t.start, t.stop⟩ else r

/-- Adds a block to a document. -/
def addBlock (d : Draft) (r : Reader) (t : Reader.StartTag) (b : Block) : Draft × Reader :=
  let doc := d.document
  if t.tag = "template" then
    let r := duplicate r doc.template.isSome "template" t
    if b.lang = "html" then
      let (f, errors) := parseTemplate b.content
      (⟨{ doc with template := some b, fragment := some f }, d.templateErrors ++ errors.map (·.shift b.inner.start)⟩, r)
    else (⟨{ doc with template := some b, fragment := none }, d.templateErrors⟩, r)
  else if t.tag = "script" then
    if b.hasAttr "setup" || b.hasAttr "vapor" then
      let r := duplicate r doc.scriptSetup.isSome "script setup" t
      ({ d with document := { doc with scriptSetup := some { b with name := "scriptSetup" } } }, r)
    else
      let r := duplicate r doc.script.isSome "script" t
      ({ d with document := { doc with script := some b } }, r)
  else if t.tag = "style" then
    let b := { b with name := s!"style_{doc.styles.length}" }
    let style : StyleBlock := ⟨b, Stylesheet.bindings b.content, Stylesheet.classNames b.content⟩
    ({ d with document := { doc with styles := doc.styles ++ [style] } }, r)
  else
    let b := { b with name := s!"customBlock_{doc.customBlocks.length}" }
    ({ d with document := { doc with customBlocks := doc.customBlocks ++ [⟨b, t.tag⟩] } }, r)

/-- Reads blocks up to the end of the source, whose size bounds the steps. -/
def blocks : Nat → Draft → Reader → Draft × Reader
  | 0, d, r => (d, r)
  | fuel + 1, d, r =>
    match r.kind with
    | .eof => (d, r)
    | .commentOpen =>
      let (_, data, r) := r.comment
      blocks fuel { d with document := { d.document with comments := d.document.comments ++ [data] } } r
    | .angleSlash =>
      let name := r.closingName
      let (s, r) := r.skipClosingTag
      blocks fuel d (r.errorAt (.strayClosingTag name) s)
    | _ =>
      if r.atTagOpen then
        let (t, r) := r.startTag
        let (inner, stop, r) := extent r t
        let (d, r) := addBlock d r t (blockOf r.source t inner stop)
        blocks fuel d r
      else blocks fuel d r.text.2

/-- The setup script of a document without any script. -/
def noScript : Block :=
  { name := "scriptSetup", lang := "ts", outer := ⟨0, 0⟩, inner := ⟨0, 0⟩, attrs := [], content := "" }

/-- A document with a script: one without gets an empty setup script. -/
def withScript (d : Document) : Document :=
  if d.script.isNone && d.scriptSetup.isNone then { d with scriptSetup := some noScript } else d

/-- Splits a source into its blocks, with the faults of the document in the order of their places. -/
def split (source : String) : Document × List ParseError :=
  let r := Reader.new source
  let (d, r) := blocks (r.size + 1) ⟨{ source := source }, []⟩ r
  (withScript d.document, (r.errors ++ d.templateErrors).mergeSort fun a b => decide (a.span.start ≤ b.span.start))

end Document

end TypedSfc
