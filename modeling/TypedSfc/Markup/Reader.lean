import TypedSfc.Markup.Directive
import TypedSfc.Markup.Token

/-!
# Reading markup

A reader holds the tokens that are left of its source. Texts, comments, values and interpolations are taken from the source itself,
and the tokens are then brought to the position where that ended (`Reader.sync`): tokens that lie before it are dropped, and when one
straddles it the rest of the source is split into tokens afresh.
-/

namespace TypedSfc

namespace Markup

/-- A source, the tokens left of it, and the faults met so far. -/
structure Reader where
  source : List Char
  tokens : List Token
  errors : List ParseError
  deriving Inhabited

namespace Reader

/-- Before the first token. -/
def new (source : String) : Reader := ⟨source.toList, Token.lex source.toList, []⟩

/-- The length of the source. -/
def size (r : Reader) : Nat := Text.size r.source

/-- The `n`-th token from here; past the last there is only the end of the file. -/
def peek (r : Reader) (n : Nat) : Token := (r.tokens[n]?).getD ⟨.eof, Span.empty r.size⟩

/-- The token here. -/
def current (r : Reader) : Token := r.peek 0

/-- The kind of the token here. -/
def kind (r : Reader) : TokenKind := r.current.kind

/-- Where the token here starts. -/
def start (r : Reader) : Nat := r.current.span.start

/-- The source text of a token. -/
def textOf (r : Reader) (t : Token) : List Char := Text.between t.span.start t.span.stop r.source

/-- The source from a position on. -/
def rest (r : Reader) (pos : Nat) : List Char := Text.after pos r.source

/-- Past the token here. -/
def advance (r : Reader) : Reader := { r with tokens := r.tokens.tail }

/-- Notes a fault at a place. -/
def errorAt (r : Reader) (f : Fault) (s : Span) : Reader := { r with errors := r.errors ++ [⟨f, s⟩] }

/-- Notes a fault at the token here. -/
def error (r : Reader) (f : Fault) : Reader := r.errorAt f r.current.span

/-- Brings the tokens to a position. -/
def sync (r : Reader) (offset : Nat) : Reader :=
  let left := r.tokens.dropWhile fun t => t.kind != .eof && decide (t.span.stop ≤ offset)
  match left with
  | [] => { r with tokens := [] }
  | t :: _ =>
    if t.kind != .eof && decide (t.span.start < offset) then
      { r with tokens := Token.lexFrom offset 0 (Text.after offset r.source) }
    else
      { r with tokens := left }

/-- Whether a name token stands right after the token here. -/
def nameFollows (r : Reader) : Bool :=
  (r.peek 1).kind == .name && (r.peek 1).span.start == r.current.span.stop

/-- Whether the token here opens a tag: `<`, and right after it a name that begins with an ASCII letter. -/
def atTagOpen (r : Reader) : Bool :=
  r.kind == .angle && r.nameFollows && (r.textOf (r.peek 1)).head?.any Char.isAlpha

/-- The name in the closing tag here, empty when there is none. -/
def closingName (r : Reader) : String :=
  if r.kind == .angleSlash && r.nameFollows then String.ofList (r.textOf (r.peek 1)) else ""

/-- Whether a closing tag ends, at the latest, before a token of this kind. -/
def endsClosingTag (k : TokenKind) : Bool :=
  k == .close || k == .eof || k == .angle || k == .angleSlash || k == .commentOpen

/-- Past the closing tag here, with its place. -/
def skipClosingTag (r : Reader) : Span × Reader :=
  let r' := { r with tokens := r.tokens.tail.dropWhile fun t => !endsClosingTag t.kind }
  if r'.kind == .close then (⟨r.start, r'.current.span.stop⟩, r'.advance) else (⟨r.start, r'.start⟩, r')

/-- Reads a comment: its place, and the text between its marks. -/
def comment (r : Reader) : Span × String × Reader :=
  let inner := r.start + 4
  let rest := r.rest inner
  match Text.find ['-', '-', '>'] rest with
  | some n =>
    (⟨r.start, inner + n + 3⟩, String.ofList (Text.between 0 n rest), r.sync (inner + n + 3))
  | none => (⟨r.start, r.size⟩, String.ofList rest, (r.error (.unterminated "comment")).sync r.size)

/-- Reads an interpolation; one that does not end is a text. -/
def interpolation (r : Reader) : Node × Reader :=
  let inner := r.start + 2
  let rest := r.rest inner
  match Text.find ['}', '}'] rest with
  | some n =>
    (.interpolation ⟨r.start, inner + n + 2⟩ ⟨String.ofList (Text.between 0 n rest), inner, false⟩, r.sync (inner + n + 2))
  | none =>
    (.text ⟨r.start, r.size⟩ (String.ofList (r.rest r.start)), (r.error (.unterminated "interpolation")).sync r.size)

/-- The part of a text up to the first place where a tag, a comment or an interpolation may begin. -/
def plainText : List Char → List Char
  | [] => []
  | '{' :: '{' :: _ => []
  | '<' :: c :: cs => if c.isAlpha || c == '/' || c == '!' then [] else '<' :: plainText (c :: cs)
  | c :: cs => c :: plainText cs

/-- Reads a text of at least one character. -/
def text (r : Reader) : Node × Reader :=
  let own := match r.rest r.start with
    | [] => []
    | c :: cs => c :: plainText cs
  let stop := r.start + Text.size own
  (.text ⟨r.start, stop⟩ (String.ofList own), r.sync stop)

/-- Reads an attribute value that starts with the quote here. -/
def quotedValue (r : Reader) (quote : Char) : AttributeValue × Nat × Reader :=
  let inner := r.current.span.stop
  let rest := r.rest inner
  match Text.find [quote] rest with
  | some n =>
    let r' := r.sync (inner + n)
    let isQuote := r'.kind == r.kind
    (⟨String.ofList (Text.between 0 n rest), inner, true⟩, if isQuote then inner + n + 1 else inner + n,
      if isQuote then r'.advance else r')
  | none =>
    (⟨String.ofList rest, inner, true⟩, r.size, (r.error (.unexpectedEof ("closing " ++ String.ofList [quote]))).sync r.size)

/-- Reads an attribute value without quotes. -/
def bareValue (r : Reader) : AttributeValue × Nat × Reader :=
  let own := (r.rest r.start).takeWhile fun c => !(Text.isAsciiBlank c || c == '>')
  let stop := r.start + Text.size own
  (⟨String.ofList own, r.start, false⟩, stop, r.sync stop)

/-- Reads the attribute whose name is the token here. -/
def readAttribute (r : Reader) : RawAttribute × Reader :=
  let name := r.current.span
  let make := fun (value : Option AttributeValue) (stop : Nat) =>
    (⟨String.ofList (r.textOf r.current), name.start, value, ⟨name.start, stop⟩⟩ : RawAttribute)
  let r := r.advance
  if r.kind == .equals then
    let r : Reader := { r with tokens := r.tokens.tail.dropWhile fun t : Token => t.kind == TokenKind.newline }
    match r.kind with
    | .doubleQuote =>
      let (v, stop, r) := r.quotedValue '\x22'
      (make (some v) stop, r)
    | .singleQuote =>
      let (v, stop, r) := r.quotedValue '\x27'
      (make (some v) stop, r)
    | .close | .slashClose | .eof => (make none name.stop, r.error (.unexpectedToken "attribute value" r.kind.label))
    | _ =>
      let (v, stop, r) := r.bareValue
      (make (some v) stop, r)
  else
    (make none name.stop, r)

/-- Reads attributes up to the end of the tag; every one takes a byte at least, so the size of the source bounds their number. -/
def attributes : Nat → Reader → List RawAttribute × Reader
  | 0, r => ([], r)
  | fuel + 1, r =>
    match r.kind with
    | .name =>
      let (a, r) := r.readAttribute
      let (as, r) := attributes fuel r
      (a :: as, r)
    | .newline | .slash => attributes fuel r.advance
    | .close | .slashClose | .eof | .angle | .angleSlash | .commentOpen => ([], r)
    | k => attributes fuel (r.error (.unexpectedToken "attribute name" k.label)).advance

/-- An opening tag. -/
structure StartTag where
  tag : String
  start : Nat
  attributes : List RawAttribute
  selfClosing : Bool
  /-- The position past the tag, or where reading it stopped. -/
  stop : Nat
  /-- Whether the tag has its `>`. -/
  terminated : Bool
  deriving Inhabited

/-- Reads the opening tag here. -/
def startTag (r : Reader) : StartTag × Reader :=
  let start := r.start
  let r := r.advance
  let tag := String.ofList (r.textOf r.current)
  let r := r.advance
  let (as, r) := attributes (r.size + 1) r
  match r.kind with
  | .slashClose => (⟨tag, start, as, true, r.current.span.stop, true⟩, r.advance)
  | .close => (⟨tag, start, as, false, r.current.span.stop, true⟩, r.advance)
  | k => (⟨tag, start, as, false, r.start, false⟩, r.error (.unexpectedToken "'>'" k.label))

/-- Reads the closing tag of `tag` and answers where the element ends; without one the element is unclosed and ends here. -/
def closingTag (r : Reader) (tag : String) (startTag : Span) : Nat × Reader :=
  if r.kind == .angleSlash && Tag.same tag r.closingName then
    let (s, r) := r.skipClosingTag
    (s.stop, r)
  else
    (r.start, r.errorAt (.unclosedTag tag) startTag)

/-- Where the content of an element that holds no markup ends, as a length: before the first `</` and its name. -/
def rawLength (tag : String) (rest : List Char) : Nat :=
  (Text.find ('<' :: '/' :: Text.lower tag.toList) (Text.lower rest)).getD (Text.size rest)

/-- The properties that attributes stand for, with their faults. -/
def properties (as : List RawAttribute) : List Property × List ParseError :=
  as.foldr (fun a acc => ((a.property).1 :: acc.1, (a.property).2 ++ acc.2)) ([], [])

/-- Reads nodes up to the end of the file or the closing tag of an element that is open. Every node takes a byte at least, so the
size of the source bounds the steps. -/
def nodes : Nat → List String → Reader → List Node × Reader
  | 0, _, r => ([], r)
  | fuel + 1, opened, r =>
    match r.kind with
    | .eof => ([], r)
    | .angleSlash =>
      let name := r.closingName
      if opened.any (Tag.same · name) then ([], r)
      else
        let (s, r) := r.skipClosingTag
        nodes fuel opened (r.errorAt (.strayClosingTag name) s)
    | .commentOpen =>
      let (s, data, r) := r.comment
      let (ns, r) := nodes fuel opened r
      (.comment s data :: ns, r)
    | .mustacheOpen =>
      let (n, r) := r.interpolation
      let (ns, r) := nodes fuel opened r
      (n :: ns, r)
    | _ =>
      if r.atTagOpen then
        let (t, r) := r.startTag
        let (props, faults) := properties t.attributes
        let r := { r with errors := r.errors ++ faults }
        let own : Span := ⟨t.start, t.stop⟩
        let make := fun (children : List Node) (stop : Nat) =>
          Node.element ⟨⟨t.start, stop⟩, t.tag, TagKind.of t.tag props, props, t.selfClosing, t.stop⟩ children
        if t.selfClosing || !t.terminated || Tag.isVoid t.tag then
          let (ns, r) := nodes fuel opened r
          (make [] t.stop :: ns, r)
        else if Tag.isRaw t.tag then
          let rest := r.rest t.stop
          let stop := t.stop + rawLength t.tag rest
          let children :=
            if t.stop < stop then [Node.text ⟨t.stop, stop⟩ (String.ofList (Text.between t.stop stop r.source))] else []
          let (last, r) := (r.sync stop).closingTag t.tag own
          let (ns, r) := nodes fuel opened r
          (make children last :: ns, r)
        else
          let (children, r) := nodes fuel (t.tag :: opened) r
          let (last, r) := r.closingTag t.tag own
          let (ns, r) := nodes fuel opened r
          (make children last :: ns, r)
      else
        let (n, r) := r.text
        let (ns, r) := nodes fuel opened r
        (n :: ns, r)

end Reader

end Markup

end TypedSfc
