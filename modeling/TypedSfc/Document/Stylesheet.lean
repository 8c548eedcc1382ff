import TypedSfc.Text.Bytes
import TypedSfc.Text.Space
import TypedSfc.Document.Block

/-!
# References of style sheets

A style sheet uses the component in two ways: `v-bind(...)` reads an expression, and a selector `.name` declares a class. Comments,
and for class names also declarations, are blanked before the search, so that every offset stays.
-/

namespace TypedSfc

namespace Stylesheet

/-- A text with every character made as many spaces as it has bytes. -/
def blank (cs : List Char) : List Char := cs.flatMap fun c => List.replicate c.utf8Size ' '

/-- The text before the first `*/` and the text after it. -/
def splitCommentEnd : List Char → Option (List Char × List Char)
  | [] => none
  | '*' :: '/' :: rest => some ([], rest)
  | c :: cs => (splitCommentEnd cs).map fun r => (c :: r.1, r.2)

/-- Whether a text has a `*/`. -/
def hasCommentEnd (cs : List Char) : Bool := (splitCommentEnd cs).isSome

/-- Where a search for comments stands. -/
inductive CommentState where
  /-- Outside of comments. -/
  | code
  /-- After the first character of a comment mark. -/
  | opening (block : Bool)
  /-- In a comment that ends at `*/`. -/
  | block
  /-- At the second character of the mark that ends a comment. -/
  | ending
  /-- In a comment that ends with its line. -/
  | line
  /-- After a comment that never ends. -/
  | stopped
  deriving DecidableEq, Repr, Inhabited

/-- Blanks the bodies of comments and keeps their marks; from a comment that never ends on, everything is kept. -/
def blankComments : CommentState → List Char → List Char
  | _, [] => []
  | state, c :: cs =>
    match state with
    | .code =>
      match c, cs with
      | '/', '*' :: rest => '/' :: blankComments (if hasCommentEnd rest then .opening true else .stopped) cs
      | '/', '/' :: rest => '/' :: blankComments (if rest.contains '\n' then .opening false else .stopped) cs
      | _, _ => c :: blankComments .code cs
    | .opening isBlock => c :: blankComments (if isBlock then .block else .line) cs
    | .block =>
      match c, cs with
      | '*', '/' :: _ => '*' :: blankComments .ending cs
      | _, _ => blank [c] ++ blankComments .block cs
    | .ending => c :: blankComments .code cs
    | .line => if c == '\n' then '\n' :: blankComments .code cs else blank [c] ++ blankComments .line cs
    | .stopped => c :: blankComments .stopped cs

/-- How far the declarations after a `{` go that are to be blanked: up to the last `;` without a backslash before it and before the
next `{`. `prev` is the character before the text. -/
def declarationLength (prev : Char) : List Char → Option Nat
  | [] => none
  | c :: cs =>
    if c == '{' then none
    else
      match declarationLength c cs with
      | some n => some (n + 1)
      | none => if c == ';' && prev != '\\' then some 0 else none

/-- Blanks declarations; `skip` characters of them are left to blank, and a `;` is kept after them. -/
def blankDeclarations (skip : Nat) (inside : Bool) : List Char → List Char
  | [] => []
  | c :: cs =>
    match skip with
    | skip + 1 => blank [c] ++ blankDeclarations skip true cs
    | 0 =>
      if inside then c :: blankDeclarations 0 false cs
      else if c == '{' then
        match declarationLength '{' cs with
        | some n => '{' :: blankDeclarations n true cs
        | none => '{' :: blankDeclarations 0 false cs
      else c :: blankDeclarations 0 false cs

/-- The characters of a word. -/
def isWord (c : Char) : Bool := c.isAlphanum || c == '_'

/-- Whether the text goes on, after blanks, with a closing parenthesis; and how long that is. -/
def closing (cs : List Char) : Option Nat :=
  match cs.dropWhile Text.isAsciiBlank with
  | ')' :: _ => some (Text.size (cs.takeWhile Text.isAsciiBlank) + 1)
  | _ => none

/-- The expression of a `v-bind` whose parenthesis ends before `cs`: the start and the length of the expression, and the length of
all up to the closing parenthesis. -/
def bindingArgument (cs : List Char) : Option (Nat × Nat × Nat) :=
  let lead := Text.size (cs.takeWhile Text.isAsciiBlank)
  match cs.dropWhile Text.isAsciiBlank with
  | [] => none
  | q :: inner =>
    if q == '\x22' || q == '\x27' then
      let own := Text.size (inner.takeWhile (· != q))
      match inner.dropWhile (· != q) with
      | [] => none
      | _ :: rest =>
        if own = 0 then none else (closing rest).map fun k => (lead + 1, own, lead + own + 2 + k)
    else if q.isAlpha || q == '_' then
      let own := Text.size ((q :: inner).takeWhile isWord)
      (closing ((q :: inner).dropWhile isWord)).map fun k => (lead, own, lead + own + k)
    else none

/-- The mark of an expression, in small letters. -/
def bindingMark : List Char := "v-bind(".toList

/-- The places of the expressions of a text that starts at `pos`, has no comments and no capitals; the text before `resume` is passed,
and `prev` is the character before. -/
def bindingSpans (pos resume : Nat) (prev : Option Char) : List Char → List Span
  | [] => []
  | c :: cs =>
    let next := fun resume => bindingSpans (pos + c.utf8Size) resume (some c) cs
    if resume ≤ pos && Text.begins bindingMark (c :: cs) && !prev.any isWord then
      match bindingArgument (cs.drop 6) with
      | some (lead, own, all) => ⟨pos + 7 + lead, pos + 7 + lead + own⟩ :: next (pos + 7 + all)
      | none => next resume
    else next resume

/-- The text of a style sheet at a place. -/
def refAt (css : List Char) (s : Span) : StyleRef := ⟨String.ofList (Text.between s.start s.stop css), s.start⟩

/-- The expressions that a style sheet reads. -/
def bindings (css : String) : List StyleRef :=
  (bindingSpans 0 0 none (blankComments .code (Text.lower css.toList))).map (refAt css.toList)

/-- The characters that may follow a class name in a selector. -/
def endsClass (c : Char) : Bool :=
  Text.isAsciiBlank c || c == '.' || c == ',' || c == '+' || c == '~' || c == '>' || c == ':' || c == '#' || c == ')' || c == '[' ||
    c == '{'

/-- The places of the class names of a text that starts at `pos`, each with its dot. -/
def classSpans (pos : Nat) : List Char → List Span
  | [] => []
  | c :: cs =>
    let rest := classSpans (pos + c.utf8Size) cs
    let isName := fun c => isWord c || c == '-'
    if c == '.' && cs.head?.any (fun d => d.isAlpha || d == '_') && (cs.dropWhile isName).head?.any endsClass then
      ⟨pos, pos + 1 + Text.size (cs.takeWhile isName)⟩ :: rest
    else rest

/-- The class names that the selectors of a style sheet declare, each with its dot. -/
def classNames (css : String) : List StyleRef :=
  (classSpans 0 (blankDeclarations 0 false (blankComments .code css.toList))).map (refAt css.toList)

end Stylesheet

end TypedSfc
