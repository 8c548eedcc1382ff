import TypedSfc.Script.Grammar.Expressions

/-!
# Elements in scripts

Between the tags of an element the text is raw: no tokens are read there until a brace or a tag begins. So a reader of a tag stops at
the `>` that ends it, and whoever asked for the tag decides how to go on.
-/

namespace TypedSfc

namespace Script

namespace Grammar

open Step

/-- Reads a word of a name; dashes belong to it. -/
def nameWord : Step Unit := fun c s =>
  match s.token.kind with
  | .word .. =>
    let more := s.rest.takeWhile fun d => Text.isIdentPart d || d == '-'
    let span : Span := ⟨s.token.span.start, s.token.span.stop + Text.size more⟩
    .ok () { s with token := { s.token with span := span }, rest := s.rest.drop more.length }.next
  | _ => unexpected "identifier" c s

/-- Reads a name of an element or an attribute: words with colons or dots between them. -/
def tagName : Step String := do
  let first ← start
  nameWord
  let _ ← many do
    if (← eat ".") || (← eat ":") then do
      nameWord
      pure (some ())
    else pure none
  let span ← spanFrom first
  let c ← context
  pure (String.ofList (Text.between span.start span.stop c.source))

/-- Goes to the brace or tag that ends the raw text after the current token. -/
def passText : Step Unit := fun _ s =>
  let text := s.rest.takeWhile fun c => c != '<' && c != '{'
  let rest := s.rest.drop text.length
  let pos := s.token.span.stop + Text.size text
  match rest with
  | [] => .ok () { s with token := ⟨.eof, ⟨pos, pos⟩, false⟩, rest := [], previous := pos }
  | c :: rest => .ok () { s with token := ⟨.punct (String.ofList [c]), ⟨pos, pos + 1⟩, false⟩, rest := rest, previous := pos }

/-- Reads the quoted value of an attribute, if one follows the equals sign that is current. Nothing is escaped in it. -/
def rawString : Step Bool := fun _ s =>
  let (t, text) := Lexer.trivia .between { pos := s.token.span.stop } s.rest
  match text with
  | q :: cs =>
    if q == '\x22' || q == '\x27' then
      let body := cs.takeWhile (· != q)
      let stop := t.pos + 1 + Text.size body
      match cs.drop body.length with
      | [] => .fail ⟨.openString, ⟨t.pos, stop⟩⟩ s
      | _ :: rest => .ok true { s with token := ⟨.string, ⟨t.pos, stop + 1⟩, false⟩, rest := rest }.next
    else .ok false s
  | [] => .ok false s

/-- Reads an expression between braces, or nothing or a spread one. The closing brace is left. -/
def braced (g : Grammar) : Step (List Part) := do
  punct "\x7b"
  if ← atPunct "\x7d" then pure []
  else
    let _ ← eat "..."
    let e ← within enclosed (expression g)
    if ← atPunct "\x7d" then pure [.expr e] else missing "\x7d"

/-- Reads an attribute: what stands in its value. -/
def elementAttribute (g : Grammar) : Step (List Part) := do
  if ← atPunct "\x7b" then
    let ps ← braced g
    advance
    pure ps
  else
    let _ ← tagName
    if ← atPunct "=" then
      if ← rawString then pure []
      else do
        advance
        if ← atPunct "\x7b" then
          let ps ← braced g
          advance
          pure ps
        else if ← atPunct "<" then
          let e ← g.element
          closeAngle
          pure [.expr e]
        else fail .noExpression
    else pure []

/-- Reads the rest of the closing tag after its slash; its `>` is left. -/
def closingTag (name : String) : Step Unit := do
  let pos ← start
  let found ← if ← atCloseAngle then pure "" else tagName
  let span ← spanFrom pos
  if found != name then failAt (.openElement name) span
  else if ← splitPunct '>' then pure () else missing ">"

/-- Reads what stands in an element after the `>` of its opening tag, up to the `>` of its closing tag. -/
def elementContent (g : Grammar) (name : String) : Step (List Part) := do
  let ps ← many do
    passText
    if ← atPunct "\x7b" then do
      let ps ← braced g
      pure (some ps)
    else if ← atPunct "<" then do
      if (← peek).kind == .punct "/" then pure none
      else do
        let e ← g.element
        let _ ← splitPunct '>'
        pure (some [.expr e])
    else fail (.openElement name)
  punct "<"
  punct "/"
  closingTag name
  pure ps.flatten

/-- Reads an element of which the opening `<` is current; its last `>` is left. -/
def elementOf (g : Grammar) : Step Expr := do
  let pos ← start
  punct "<"
  let done : List Part → Step Expr := fun ps => do
    let t ← token
    pure (.other ⟨pos, t.span.start + 1⟩ ps)
  if ← splitPunct '>' then
    let ps ← elementContent g ""
    done ps
  else
    let name ← tagName
    let c ← context
    let types ← if c.typed && (← atPunct "<") then typeArguments g else pure []
    let ps ← many do
      let s ← state
      if s.token.kind == .punct "\x7b" || s.token.word?.isSome then do
        let ps ← elementAttribute g
        pure (some ps)
      else pure none
    let ps := ps.flatten ++ partsOf types
    if ← eat "/" then
      if ← splitPunct '>' then done ps else missing ">"
    else if ← splitPunct '>' then
      let more ← elementContent g name
      done (ps ++ more)
    else missing ">"

end Grammar

end Script

end TypedSfc
