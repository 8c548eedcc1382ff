import TypedSfc.Script.Grammar.Step

/-!
# Types

Types are read for where they end and for the values in them: the names after `typeof`, computed keys, and defaults of patterns.
-/

namespace TypedSfc

namespace Script

namespace Grammar

open Step

/-- The parts of a list of types. -/
def partsOf (ts : List TypeNode) : List Part := ts.flatMap (·.parts)

/-- Whether punctuation that begins with `>` is here. -/
def atCloseAngle : Step Bool := fun _ s =>
  .ok (match s.token.kind with
    | .punct t => t.toList.head? == some '>'
    | _ => false) s

/-- Reads elements between angle brackets. -/
def angleList {α : Type} (p : Step α) : Step (List α) := do
  if ← splitPunct '<' then
    advance
    let as ← many do
      if ← atCloseAngle then pure none
      else do
        let a ← p
        if ← atCloseAngle then pure (some a)
        else do
          punct ","
          pure (some a)
    closeAngle
    pure as
  else missing "<"

/-- Reads type arguments. -/
def typeArguments (g : Grammar) : Step (List TypeNode) :=
  angleList (within (fun c => { c with conditionalType := true, colonEnds := false }) g.type)

/-- Reads type arguments if they begin on this line. -/
def typeArgumentsHere (g : Grammar) : Step (List Part) := do
  let s ← state
  if s.token.newline then pure []
  else if s.token.kind == .punct "<" || s.token.kind == .punct "<<" then do
    let ts ← typeArguments g
    pure (partsOf ts)
  else pure []

/-- Reads a type in which a conditional one may stand. -/
def anyType (g : Grammar) : Step TypeNode := within (fun c => { c with conditionalType := true, colonEnds := false }) g.type

/-- Reads any word as a name. -/
def identName : Step Ident := do
  let t ← token
  match t.kind with
  | .word w _ => do
    advance
    pure ⟨w, t.span.start⟩
  | _ => unexpected "identifier"

/-- Reads a word that is no keyword. -/
def identifier : Step Ident := do
  let t ← token
  match t.kind with
  | .word w _ =>
    if reservedWords.contains w then unexpected "identifier"
    else do
      advance
      pure ⟨w, t.span.start⟩
  | _ => unexpected "identifier"

/-- Reads names with dots between them, and answers the first. -/
def dottedName : Step Ident := do
  let first ← identName
  let _ ← many do
    if ← eat "." then do
      let t ← token
      match t.kind with
      | .hash _ => advance
      | _ => do
        let _ ← identName
        pure ()
      pure (some ())
    else pure none
  pure first

/-- Reads the pieces of a template from the backtick or brace here on, and what stands in its braces. -/
def templateParts (inner : Step (List Part)) : Step (List Part) := do
  let piece : Step Bool := fun _ s =>
    match Lexer.templatePiece 0 s.rest with
    | none => .fail ⟨.openTemplate, ⟨s.token.span.start, s.token.span.stop + Text.size s.rest⟩⟩ s
    | some (size, mark, rest) =>
      .ok (mark == '{')
        { s with token := ⟨.punct "\x60", ⟨s.token.span.stop, s.token.span.stop + size⟩, false⟩, rest := rest }.next
  if ← piece then
    let first ← inner
    let more ← many do
      let s ← state
      if s.token.kind == .punct "\x7d" then
        if ← piece then do
          let ps ← inner
          pure (some ps)
        else pure none
      else unexpected "\x7d"
    pure (first ++ more.flatten)
  else pure []

/-- Reads the key of a property: its name if it is written as one, and the parts of a computed key. -/
def propertyKey (g : Grammar) : Step (Option String × List Part) := do
  let t ← token
  match t.kind with
  | .word w _ => do
    advance
    pure (some w, [])
  | .string | .number => do
    advance
    pure (none, [])
  | .punct "[" => do
    advance
    let e ← within (fun c => { c with inOperator := true, colonEnds := false }) g.assignment
    punct "]"
    pure (none, [.expr e])
  | _ => unexpected "identifier, string literal, numeric literal or [ for the computed key"

/-- Puts a type behind a pattern. -/
def annotate (p : Pat) (span : Span) (type : List Part) : Pat :=
  match p with
  | .name i _ _ => .name i (some span) type
  | .array s es _ _ => .array ⟨s.start, span.stop⟩ es (some span) type
  | .object s ps _ _ => .object ⟨s.start, span.stop⟩ ps (some span) type
  | .rest s q _ _ => .rest ⟨s.start, span.stop⟩ q (some span) type
  | p => p

/-- Reads a type after a colon that is current: its place with the colon, and its parts. -/
def typeAfterColon (g : Grammar) : Step TypeNode := do
  let pos ← start
  punct ":"
  let t ← anyType g
  let span ← spanFrom pos
  pure ⟨span, t.parts⟩

/-- Reads a type after a colon, if there is one and types may be written. -/
def optionalType (g : Grammar) : Step (Option TypeNode) := do
  let c ← context
  if c.typed then
    if ← atPunct ":" then do
      let t ← typeAfterColon g
      pure (some t)
    else pure none
  else pure none

/-- Reads the decorators before a declaration. -/
def decorators (g : Grammar) : Step (List Part) :=
  many do
    if ← eat "@" then do
      let e ← g.unary
      pure (some (.expr e))
    else pure none

/-- The words that may stand before a parameter. -/
def parameterModifiers : List String := ["public", "private", "protected", "readonly", "override"]

/-- Reads a parameter, with the parts of its decorators. -/
def parameter (g : Grammar) : Step (List Part × Pat) := do
  let ds ← decorators g
  let c ← context
  let _ ← many do
    let s ← state
    match s.token.word? with
    | some w =>
      if c.typed && parameterModifiers.contains w then do
        let n ← peek
        match n.kind with
        | .word .. | .punct "\x7b" | .punct "[" => do
          advance
          pure (some ())
        | _ => pure none
      else pure none
    | none => pure none
  let pos ← start
  if ← eat "..." then
    let inner ← g.pattern
    let t ← optionalType g
    let span ← spanFrom pos
    let p := Pat.rest span inner none []
    pure (ds, match t with
      | some t => annotate p t.span t.parts
      | none => p)
  else
    let isThis ← atWord "this"
    let p ← if isThis then (do
        let i ← identName
        pure (Pat.name i none []))
      else g.pattern
    if c.typed then
      let _ ← eat "?"
    let t ← optionalType g
    let p := match t with
      | some t => annotate p t.span t.parts
      | none => p
    if ← eat "=" then
      let e ← within (fun c => { c with inOperator := true, colonEnds := false }) g.assignment
      let span ← spanFrom pos
      pure (ds, .default span p e)
    else pure (ds, p)

/-- Reads parameters between parentheses. -/
def parameters (g : Grammar) : Step (List (List Part × Pat)) := do
  punct "("
  listUntil ")" (parameter g)

/-- The parts of parameters, in order. -/
def parameterParts (ps : List (List Part × Pat)) : List Part :=
  ps.flatMap fun p => p.1 ++ [.pat p.2]

/-- Reads type parameters: the types in them. -/
def typeParameters (g : Grammar) : Step (List Part) := do
  let ps ← angleList do
    let _ ← many do
      let s ← state
      match s.token.word? with
      | some w =>
        if w == "const" || w == "in" || w == "out" then do
          let n ← peek
          match n.kind with
          | .word v _ =>
            if v == "extends" && w != "const" then pure none
            else do
              advance
              pure (some ())
          | _ => pure none
        else pure none
      | none => pure none
    let _ ← identifier
    let bound ← if ← eatWord "extends" then (do
        let t ← anyType g
        pure t.parts)
      else pure []
    let fallback ← if ← eat "=" then (do
        let t ← anyType g
        pure t.parts)
      else pure []
    pure (bound ++ fallback)
  pure ps.flatten

/-- Reads type parameters if they are here. -/
def optionalTypeParameters (g : Grammar) : Step (List Part) := do
  let c ← context
  if c.typed then
    if ← atPunct "<" then typeParameters g else pure []
  else pure []

/-- Reads a result type: a type, or what a call says of an argument. -/
def resultType (g : Grammar) : Step TypeNode := do
  let pos ← start
  let s ← state
  let subject := fun (t : Token) => t.isName || t.kind == .word "this" false
  let n := s.next.token
  if s.token.kind == .word "asserts" false && subject n && !n.newline then
    advance
    advance
    if ← eatWord "is" then
      let t ← anyType g
      let span ← spanFrom pos
      pure ⟨span, t.parts⟩
    else
      let span ← spanFrom pos
      pure ⟨span, []⟩
  else if subject s.token && n.kind == .word "is" false && !n.newline then
    advance
    advance
    let t ← anyType g
    let span ← spanFrom pos
    pure ⟨span, t.parts⟩
  else anyType g

/-- Reads a result type after a colon, if it is there. -/
def optionalResult (g : Grammar) : Step (List Part) := do
  let c ← context
  if c.typed then
    if ← eat ":" then do
      let t ← resultType g
      pure t.parts
    else pure []
  else pure []

/-- Reads what follows the name of a signature: parameters and a result. The type parameters of a method are passed by. -/
def signature (g : Grammar) (isMethod : Bool) : Step (List Part) := do
  let ts ← optionalTypeParameters g
  let ps ← parameters g
  let r ← optionalResult g
  pure [.region .function [] (parameterParts ps ++ r ++ if isMethod then [.aside true ts] else ts)]

/-- Ends a member of an object type. -/
def memberEnd : Step Unit := do
  if ← eat "," then pure () else semicolon

/-- Whether a token begins the name of a member. -/
def beginsKey (t : Token) : Bool :=
  match t.kind with
  | .word .. | .string | .number | .hash _ => true
  | .punct p => p == "["
  | _ => false

/-- Whether an index signature is here: a name and a colon in brackets. -/
def atIndexSignature : Step Bool := fun _ s =>
  if s.token.kind == .punct "[" then
    let a := s.next
    match a.token.kind with
    | .word .. => .ok (a.next.token.kind == .punct ":") s
    | _ => .ok false s
  else .ok false s

/-- Reads an index signature without its end. -/
def indexSignature (g : Grammar) : Step (List Part) := do
  punct "["
  let i ← identName
  let k ← typeAfterColon g
  punct "]"
  let v ← optionalType g
  pure [.region .function [i] (k.parts ++ match v with
    | some v => v.parts
    | none => [])]

/-- Reads a member of an object type. -/
def typeMember (g : Grammar) : Step (List Part) := do
  let isSignature := fun (t : Token) => t.kind == .punct "(" || t.kind == .punct "<"
  let s ← state
  let n := s.next.token
  if isSignature s.token then
    let ps ← signature g false
    memberEnd
    pure ps
  else if s.token.kind == .word "new" false && isSignature n then
    advance
    let ps ← signature g false
    memberEnd
    pure ps
  else
    let _ ← many do
      let s ← state
      match s.token.word? with
      | some w =>
        if (w == "readonly" || w == "static") && beginsKey s.next.token then do
          advance
          pure (some ())
        else pure none
      | none => pure none
    if ← atIndexSignature then
      let ps ← indexSignature g
      memberEnd
      pure ps
    else
      let s ← state
      let isAccessor := (s.token.kind == .word "get" false || s.token.kind == .word "set" false) && beginsKey s.next.token
      if isAccessor then advance
      let (_, key) ← propertyKey g
      let _ ← eat "?"
      let t ← token
      if isSignature t then
        let ps ← signature g true
        memberEnd
        pure (key ++ ps)
      else
        let v ← optionalType g
        memberEnd
        pure (key ++ match v with
          | some v => v.parts
          | none => [])

/-- Reads the members of an object type between braces. -/
def objectMembers (g : Grammar) : Step (List Part) := do
  punct "\x7b"
  let ms ← many do
    if ← atPunct "\x7d" then pure none
    else do
      let m ← typeMember g
      pure (some m)
  punct "\x7d"
  pure ms.flatten

/-- Whether a mapped type is here. -/
def atMappedType : Step Bool := fun c s =>
  let body : Step Bool := do
    punct "\x7b"
    let sign ← (do
      if ← eat "+" then pure true else eat "-")
    if sign then do
      keyword "readonly"
      pure true
    else do
      let _ ← eatWord "readonly"
      if ← eat "[" then do
        let _ ← identName
        atWord "in"
      else pure false
  match body c s with
  | .ok b _ => .ok b s
  | .fail _ _ => .ok false s

/-- Reads a mapped type. -/
def mappedType (g : Grammar) : Step (List Part) := do
  punct "\x7b"
  let sign : Step Unit := do
    let _ ← eat "+"
    let _ ← eat "-"
  sign
  let _ ← eatWord "readonly"
  punct "["
  let _ ← identName
  keyword "in"
  let keys ← anyType g
  let renamed ← if ← eatWord "as" then (do
      let t ← anyType g
      pure t.parts)
    else pure []
  punct "]"
  sign
  let _ ← eat "?"
  let v ← optionalType g
  let _ ← eatSemicolon
  punct "\x7d"
  pure (keys.parts ++ renamed ++ match v with
    | some v => v.parts
    | none => [])

/-- Reads an element of a tuple type. -/
def tupleElement (g : Grammar) : Step (List Part) := do
  let isRest ← eat "..."
  let s ← state
  let n := s.next
  let labelled := s.token.word?.isSome &&
    (n.token.kind == .punct ":" || (n.token.kind == .punct "?" && n.next.token.kind == .punct ":"))
  if labelled then
    advance
    let _ ← eat "?"
    punct ":"
  let t ← anyType g
  if !isRest then
    let _ ← eat "?"
  pure t.parts

/-- Whether a function type begins at the parenthesis here. -/
def atFunctionType : Step Bool := fun c s =>
  match s.token.kind with
  | .punct "<" => .ok true s
  | .punct "(" =>
    let balanced : Step Unit := fun _ s =>
      let rec close : Nat → Nat → State → State
        | 0, _, s => s
        | fuel + 1, depth, s =>
          match s.token.kind with
          | .eof => s
          | .punct p =>
            if p == "[" || p == "\x7b" then close fuel (depth + 1) s.next
            else if p == "]" || p == "\x7d" then if depth ≤ 1 then s.next else close fuel (depth - 1) s.next
            else close fuel depth s.next
          | _ => close fuel depth s.next
      .ok () (close (s.rest.length + 2) 0 s)
    let body : Step Bool := do
      advance
      let t ← token
      if t.kind == .punct ")" || t.kind == .punct "..." then pure true
      else do
        let isStart ← match t.kind with
          | .word .. => (do
            advance
            pure true)
          | .punct "[" => (do
            balanced
            pure true)
          | .punct "\x7b" => (do
            balanced
            pure true)
          | _ => pure false
        if isStart then do
          let t ← token
          if t.kind == .punct ":" || t.kind == .punct "," || t.kind == .punct "?" || t.kind == .punct "=" then pure true
          else if ← eat ")" then atPunct "=>"
          else pure false
        else pure false
    match body c s with
    | .ok b _ => .ok b s
    | .fail _ _ => .ok false s
  | _ => .ok false s

/-- Reads a function type. -/
def functionType (g : Grammar) : Step (List Part) := do
  let ts ← optionalTypeParameters g
  let ps ← parameters g
  punct "=>"
  let r ← within (fun c => { c with colonEnds := false }) (resultType g)
  pure [.region .function [] (parameterParts ps ++ ts ++ r.parts)]

/-- What a message says that a type may begin with. -/
def typeStarts : String :=
  "an identifier, void, yield, null, await, break, a string literal, a numeric literal, true, false, \x60, -, import, this, typeof, " ++
  "\x7b, [, ("

/-- The keywords that are types or may name one. -/
def typeWords : List String := ["void", "null", "true", "false", "this", "yield", "await"]

/-- Reads the type of a value after `typeof`. -/
def typeQuery (g : Grammar) : Step (List Part) := do
  keyword "typeof"
  if ← eatWord "import" then
    punct "("
    let _ ← anyType g
    punct ")"
    let _ ← many do
      if ← eat "." then do
        let _ ← identName
        pure (some ())
      else pure none
    typeArgumentsHere g
  else
    let i ← dottedName
    let ts ← typeArgumentsHere g
    pure (.expr (.name i) :: ts)

/-- Reads a type without operators. -/
def simpleType (g : Grammar) : Step (List Part) := do
  let t ← token
  match t.kind with
  | .string | .number => do
    advance
    pure []
  | .punct "-" => do
    advance
    let n ← token
    if n.kind == .number then do
      advance
      pure []
    else unexpected "numeric literal or bigint literal"
  | .punct "\x60" => templateParts do
      let t ← anyType g
      pure t.parts
  | .punct "\x7b" => do
    if ← atMappedType then mappedType g else objectMembers g
  | .punct "[" => do
    advance
    let es ← listUntil "]" (tupleElement g)
    pure es.flatten
  | .punct "(" => do
    advance
    let t ← anyType g
    punct ")"
    pure t.parts
  | .word w escaped => do
    if w == "typeof" && !escaped then typeQuery g
    else if w == "import" && !escaped then do
      advance
      punct "("
      let _ ← anyType g
      if ← eat "," then
        let _ ← g.assignment
        let _ ← eat ","
      punct ")"
      let _ ← many do
        if ← eat "." then do
          let _ ← identName
          pure (some ())
        else pure none
      typeArgumentsHere g
    else if reservedWords.contains w && !typeWords.contains w then unexpected typeStarts
    else if w == "this" && !escaped then do
      advance
      let s ← state
      if s.token.kind == .word "is" false && !s.token.newline then do
        advance
        let t ← anyType g
        pure t.parts
      else pure []
    else do
      let _ ← dottedName
      typeArgumentsHere g
  | _ => unexpected typeStarts

/-- Reads a type with its array and index suffixes. -/
def arrayType (g : Grammar) : Step (List Part) := do
  let first ← simpleType g
  grow (fun ps => do
    let s ← state
    if s.token.kind == .punct "[" && !s.token.newline then do
      advance
      if ← eat "]" then pure (some ps)
      else do
        let i ← anyType g
        punct "]"
        pure (some (ps ++ i.parts))
    else pure none) first

/-- Reads a type with the operators before it; `fuel` bounds their number. -/
def operatorType (g : Grammar) : Nat → Step (List Part)
  | 0 => fail .noExpression
  | fuel + 1 => do
    let s ← state
    let isOperator := s.token.kind == .word "keyof" false || s.token.kind == .word "unique" false ||
      s.token.kind == .word "readonly" false
    if isOperator then do
      advance
      operatorType g fuel
    else if s.token.kind == .word "infer" false && s.next.token.isName then do
      advance
      let _ ← identifier
      let c ← context
      let bound ← attemptQuiet do
        if ← eatWord "extends" then do
          let t ← within (fun c => { c with conditionalType := false }) g.type
          if c.conditionalType && (← atPunct "?") then pure none else pure (some t.parts)
        else pure none
      pure (bound.getD [])
    else arrayType g

/-- Reads types with an operator between them, which may also stand before the first. -/
def joinedType (operator : String) (p : Step (List Part)) : Step TypeNode := do
  let pos ← start
  let leading ← eat operator
  let own ← start
  let first ← p
  let more ← many do
    if ← eat operator then do
      let ps ← p
      pure (some ps)
    else pure none
  let span ← spanFrom (if leading && more.isEmpty then own else pos)
  pure ⟨span, first ++ more.flatten⟩

/-- Reads a type that is no conditional one. -/
def plainType (g : Grammar) : Step TypeNode := do
  let pos ← start
  let s ← state
  let isAbstract := s.token.kind == .word "abstract" false && s.next.token.kind == .word "new" false
  if isAbstract || s.token.kind == .word "new" false then
    if isAbstract then advance
    keyword "new"
    let ps ← functionType g
    let span ← spanFrom pos
    pure ⟨span, ps⟩
  else if ← atFunctionType then
    let ps ← functionType g
    let span ← spanFrom pos
    pure ⟨span, ps⟩
  else
    let operand : Step (List Part) := fun c s => operatorType g (s.rest.length + 2) c s
    let part : Step (List Part) := do
      let t ← joinedType "&" (do
        if ← atFunctionType then functionType g else operand)
      pure t.parts
    joinedType "|" part

/-- Reads a type. -/
def typeOf (g : Grammar) : Step TypeNode := do
  let pos ← start
  let t ← plainType g
  let s ← state
  let c ← context
  if c.conditionalType && s.token.kind == .word "extends" false && !s.token.newline then
    advance
    let bound ← within (fun c => { c with conditionalType := false }) g.type
    punct "?"
    let yes ← anyType g
    punct ":"
    let no ← anyType g
    let span ← spanFrom pos
    pure ⟨span, t.parts ++ bound.parts ++ yes.parts ++ no.parts⟩
  else pure t

end Grammar

end Script

end TypedSfc
