import TypedSfc.Script.Grammar.Expressions

/-!
# Statements

A statement ends at a semicolon, or where the language lets one be left out.
-/

namespace TypedSfc

namespace Script

namespace Grammar

open Step

/-! ## Declarations -/

/-- Whether a token begins a pattern. -/
def beginsPattern (t : Token) : Bool :=
  match t.kind with
  | .word w _ => !reservedWords.contains w || w == "yield" || w == "await"
  | .punct p => p == "[" || p == "\x7b"
  | _ => false

/-- Reads a variable with its value. A constant without a value is noted; another pattern without a value is a fault, unless it is a
plain name. -/
def declarator (g : Grammar) (isConst inHead : Bool) : Step Part := do
  let pos ← start
  let p ← g.pattern
  let c ← context
  if c.typed then
    let _ ← eat "!"
  let t ← optionalType g
  let p := match t with
    | some t => annotate p t.span t.parts
    | none => p
  if ← eat "=" then
    let e ← within (fun c => { c with colonEnds := false }) g.assignment
    let span ← spanFrom pos
    pure (.define span p e)
  else
    let span ← spanFrom pos
    if !c.isAmbient && !inHead then
      if isConst then noteAt .noInitializer span
      else match p with
        | .name .. => pure ()
        | _ => failAt .noDestructured span
    pure (.declare span p)

/-- The keywords that declare variables. -/
def variableWords : List String := ["var", "let", "const"]

/-- How the keyword here declares variables. -/
def varKind : Step VarKind := do
  pure (if ← atWord "var" then .hoisted else .lexical)

/-- Reads variables after their keyword. -/
def declarators (g : Grammar) (isConst inHead : Bool) : Step (List Part) :=
  commaList (declarator g isConst inHead)

/-- Goes on behind a statement that is not ended: an expression is passed if there is one, and then all tokens up to an end. -/
def passToEnd (g : Grammar) : Step Unit := do
  let _ ← fun c s =>
    match expression g c s with
    | .ok _ s => Outcome.ok () s
    | .fail _ s => .ok () s
  let _ ← many do
    if ← eatSemicolon then pure none
    else do
      let t ← token
      match t.kind with
      | .bad f => failAt f t.span
      | _ => do
        advance
        pure (some ())

/-- Reads variables from their keyword on, with the end of the statement. -/
def varStatement (g : Grammar) (pos : Nat) : Step Stmt := do
  let isConst ← atWord "const"
  let kind ← varKind
  advance
  let ds ← declarators g isConst false
  if !(← eatSemicolon) then
    let t ← token
    noteAt .noSemicolon t.span
    passToEnd g
  let span ← spanFrom pos
  pure (.vars span kind ds)

/-- Reads a function from its keyword on. -/
def functionDeclaration (g : Grammar) (pos : Nat) (isAsync : Bool) : Step Stmt := do
  keyword "function"
  let isGenerator ← eat "*"
  let i ← identifier
  let f ← functionRest g isAsync isGenerator
  let span ← spanFrom pos
  pure (.funcDecl span i (f.parts []))

/-- Reads a class from its keyword on, after its decorators. -/
def classDeclaration (g : Grammar) (pos : Nat) (ds : List Part) : Step Stmt := do
  keyword "class"
  let i ← identifier
  let ps ← classRest g
  let span ← spanFrom pos
  pure (.classDecl span i (ds ++ ps))

/-- Reads an enumeration from its keyword on. -/
def enumDeclaration (g : Grammar) (pos : Nat) : Step Stmt := do
  keyword "enum"
  let i ← identifier
  punct "\x7b"
  let ps ← listUntil "\x7d" do
    let (_, key) ← propertyKey g
    if ← eat "=" then do
      let e ← g.assignment
      pure (key ++ [.expr e])
    else pure key
  let span ← spanFrom pos
  pure (.enumDecl span i ps.flatten)

/-- Reads an interface from its keyword on: the values in it. -/
def interface (g : Grammar) : Step (List Part) := do
  keyword "interface"
  let _ ← identifier
  let ts ← optionalTypeParameters g
  let bases ← if ← eatWord "extends" then commaList (heritage g) else pure []
  let ms ← objectMembers g
  pure (ts ++ bases.flatten ++ ms)

/-- Reads a name for a type from its keyword on. -/
def typeAlias (g : Grammar) (pos : Nat) : Step Stmt := do
  keyword "type"
  let _ ← identifier
  let ts ← optionalTypeParameters g
  punct "="
  let t ← anyType g
  semicolon
  let span ← spanFrom pos
  pure (.other span (ts ++ t.parts))

/-- Reads the items of a namespace between braces. -/
def namespaceBody (g : Grammar) : Step (List Part) := do
  punct "\x7b"
  let ps ← many do
    if ← atPunct "\x7d" then pure none
    else if ← atEof then pure none
    else
      let ps ← g.member
      pure (some ps)
  punct "\x7d"
  pure ps.flatten

/-- Reads a namespace after its keyword: its name and its body, which may be missing. -/
def namespaceRest (g : Grammar) (pos : Nat) : Step Stmt := do
  let t ← token
  let name ← match t.kind with
    | .string => (do
      advance
      pure none)
    | _ => (do
      let i ← dottedName
      pure (some i))
  let ps ← if ← atPunct "\x7b" then namespaceBody g
    else (do
      semicolon
      pure [])
  let span ← spanFrom pos
  pure (.namespaceDecl span name [.region .body [] ps])

/-- Whether a declaration of types begins here, or a word before one. -/
def beginsTypeDeclaration (s : State) : Bool :=
  let n := s.next.token
  match s.token.kind with
  | .word w false =>
    !n.newline &&
      (if w == "type" || w == "interface" || w == "namespace" then n.isName
      else if w == "module" then n.isName || n.kind == .string
      else if w == "abstract" then n.kind == .word "class" false
      else if w == "global" then n.kind == .punct "\x7b"
      else if w == "declare" then n.word?.isSome && n.kind != .word "instanceof" false && n.kind != .word "in" false &&
        n.kind != .word "as" false && n.kind != .word "satisfies" false
      else false)
  | _ => false

/-- Reads a declaration that only typed scripts have; a statement that begins at `pos` goes on here. -/
def typeDeclaration (g : Grammar) (pos : Nat) (ds : List Part) : Step Stmt := do
  if ← eatWord "abstract" then classDeclaration g pos ds
  else if ← atWord "type" then typeAlias g pos
  else if ← atWord "interface" then
    let ps ← interface g
    let span ← spanFrom pos
    pure (.other span ps)
  else
    advance
    namespaceRest g pos

/-- Reads a declaration of something that is defined elsewhere, after the word that says so. -/
def ambient (g : Grammar) (pos : Nat) : Step Stmt := within (fun c => { c with isAmbient := true }) do
  let s ← state
  let n := s.next.token
  match s.token.kind with
  | .word "function" false => functionDeclaration g pos false
  | .word "class" false => classDeclaration g pos []
  | .word "enum" false => enumDeclaration g pos
  | .word "const" false => do
    if n.kind == .word "enum" false then
      advance
      enumDeclaration g pos
    else varStatement g pos
  | .word "var" false | .word "let" false => varStatement g pos
  | .word "global" false => do
    advance
    let ps ← namespaceBody g
    let span ← spanFrom pos
    pure (.other span ps)
  | _ => if beginsTypeDeclaration s then typeDeclaration g pos [] else missing "a declaration"

/-! ## Control -/

/-- Reads an expression in parentheses, as the head of a statement. -/
def head (g : Grammar) : Step Part := do
  punct "("
  let e ← within enclosed (expression g)
  punct ")"
  pure (.expr e)

/-- Reads a statement as a part of another. -/
def body (g : Grammar) : Step Part := do
  let s ← g.statement
  pure (.stmt s)

/-- Reads a block as a scope. -/
def scopedBlock (g : Grammar) : Step Part := do
  let ss ← within enclosed (block g)
  pure (.scope .block [] ss)

/-- Reads an expression if none of the given pieces of punctuation is here. -/
def expressionUnless (g : Grammar) (close : String) : Step (List Part) := do
  if ← atPunct close then pure []
  else
    let e ← within enclosed (expression g)
    pure [.expr e]

/-- Reads the rest of a loop over the elements or keys of a value, from `of` or `in` on. -/
def loopOver (g : Grammar) (left : Part) : Step (List Part) := do
  let isOf ← atWord "of"
  advance
  let e ← within enclosed (if isOf then g.assignment else expression g)
  punct ")"
  let b ← body g
  pure [left, .expr e, b]

/-- Reads the rest of a counting loop, from the first semicolon on. -/
def loopCount (g : Grammar) (first : List Part) : Step (List Part) := do
  punct ";"
  let test ← expressionUnless g ";"
  punct ";"
  let update ← expressionUnless g ")"
  punct ")"
  let b ← body g
  pure (first ++ test ++ update ++ [b])

/-- Whether a loop over a value goes on here. -/
def atLoopOver : Step Bool := do
  if ← atWord "of" then pure true else atWord "in"

/-- Reads a loop after its keyword. -/
def loop (g : Grammar) : Step (List Part) := do
  let _ ← eatWord "await"
  punct "("
  let s ← state
  if s.token.kind == .punct ";" then loopCount g []
  else if (s.token.word?.any variableWords.contains) && beginsPattern s.next.token then
    let pos ← start
    let isConst ← atWord "const"
    let kind ← varKind
    advance
    let ds ← within (fun c => { c with inOperator := false, colonEnds := false }) (declarators g isConst true)
    let span ← spanFrom pos
    let first := Part.decl (.vars span kind ds)
    if ← atLoopOver then loopOver g first else loopCount g [first]
  else
    let e ← within (fun c => { c with inOperator := false, colonEnds := false }) (expression g)
    if ← atLoopOver then loopOver g (.pat (inner e)) else loopCount g [.expr e]

/-- Reads the cases of a `switch` between braces. -/
def cases (g : Grammar) : Step (List Part) := do
  punct "\x7b"
  let ps ← many do
    let test ← if ← eatWord "case" then (do
        let e ← within enclosed (expression g)
        pure (some [Part.expr e]))
      else if ← eatWord "default" then pure (some [])
      else pure none
    match test with
    | none => pure none
    | some test => do
      punct ":"
      let ss ← many do
        let t ← token
        if t.kind == .word "case" false || t.kind == .word "default" false || t.kind == .punct "\x7d" || t.kind == .eof then pure none
        else do
          let s ← body g
          pure (some s)
      pure (some (test ++ ss))
  punct "\x7d"
  pure ps.flatten

/-- Reads a guarded block after its keyword. -/
def guarded (g : Grammar) : Step (List Part) := do
  let b ← scopedBlock g
  let handler ← if ← eatWord "catch" then (do
      let param ← if ← eat "(" then (do
          let p ← g.pattern
          let t ← optionalType g
          punct ")"
          pure [match t with
            | some t => annotate p t.span t.parts
            | none => p])
        else pure []
      let b ← scopedBlock g
      pure (some (Part.scope .block param [b])))
    else pure none
  let last ← if ← eatWord "finally" then (do
      let b ← scopedBlock g
      pure [b])
    else if handler.isNone then missing "catch"
    else pure []
  pure (b :: handler.toList ++ last)

/-- Reads a statement that leaves a function, with a value or without. -/
def leaving (g : Grammar) : Step Stmt := do
  let pos ← start
  let isReturn ← atWord "return"
  advance
  let c ← context
  let e ← if isReturn && (← atStatementEnd) then pure none
    else (do
      let e ← within enclosed (expression g)
      pure (some e))
  semicolon
  let span ← spanFrom pos
  if isReturn && !c.inFunction then
    noteAt .returnOutside span
  match e with
  | some e => pure (.leave span e)
  | none => pure (.other span [])

/-- Reads an expression as a statement. An operator behind it is noted, and the reading goes on with it. -/
def expressionStatement (g : Grammar) : Step Stmt := do
  let pos ← start
  let e ← within enclosed (expression g)
  if ← eatSemicolon then
    let span ← spanFrom pos
    pure (.expr span e)
  else
    let t ← token
    if isOperator t then
      noteAt .noSemicolon t.span
      let e ← fun c s => binaryFrom g pos (s.rest.length + 2) 0 ⟨e, false⟩ c s
      let span ← spanFrom pos
      pure (.expr span e.expr)
    else fail .noStatementEnd

/-- Reads a statement that begins with a word which no other rule takes: a label or an expression. -/
def labelled (g : Grammar) : Step Stmt := do
  let s ← state
  if s.token.isName && s.next.token.kind == .punct ":" then
    advance
    advance
    let b ← body g
    let span ← spanFrom s.token.span.start
    pure (.other span [b])
  else expressionStatement g

/-- Reads a statement that begins with a keyword, if the word is one. -/
def keywordStatement (g : Grammar) (w : String) : Step (Option Stmt) := do
  let s ← state
  let pos := s.token.span.start
  let n := s.next.token
  let c ← context
  let done : Step (List Part) → Step (Option Stmt) := fun p => do
    advance
    let ps ← p
    let span ← spanFrom pos
    pure (some (.other span ps))
  let some' : Step Stmt → Step (Option Stmt) := fun p => do
    let s ← p
    pure (some s)
  match w with
  | "var" => some' (varStatement g pos)
  | "let" => if beginsPattern n then some' (varStatement g pos) else pure none
  | "const" =>
    if n.kind == .word "enum" false && c.typed then some' do
      advance
      enumDeclaration g pos
    else some' (varStatement g pos)
  | "function" => some' (functionDeclaration g pos false)
  | "async" =>
    if n.kind == .word "function" false && !n.newline then some' do
      advance
      functionDeclaration g pos true
    else pure none
  | "class" => some' (classDeclaration g pos [])
  | "enum" => if c.typed then some' (enumDeclaration g pos) else pure none
  | "if" => done do
    let test ← head g
    let yes ← body g
    let no ← if ← eatWord "else" then (do
        let b ← body g
        pure [b])
      else pure []
    pure (test :: yes :: no)
  | "for" => done do
    let ps ← loop g
    pure [.scope .block [] ps]
  | "while" | "with" => done do
    let test ← head g
    let b ← body g
    pure [test, b]
  | "do" => done do
    let b ← body g
    keyword "while"
    let test ← head g
    let _ ← eat ";"
    pure [test, b]
  | "switch" => done do
    let value ← head g
    let ps ← cases g
    pure [value, .region .block [] ps]
  | "try" => done (guarded g)
  | "return" | "throw" => some' (leaving g)
  | "break" | "continue" => done do
    let t ← token
    if t.isName && !t.newline then advance
    semicolon
    pure []
  | "debugger" => done do
    semicolon
    pure []
  | "using" =>
    if n.isName && !n.newline && c.typed then some' do
      advance
      let ds ← declarators g false false
      semicolon
      let span ← spanFrom pos
      pure (.vars span .disposed ds)
    else pure none
  | _ =>
    if c.typed && beginsTypeDeclaration s then
      if w == "declare" then some' do
        advance
        ambient g pos
      else if w == "global" then some' (ambient g pos)
      else some' (typeDeclaration g pos [])
    else pure none

/-- Reads a statement, which may be a declaration. -/
def statementOf (g : Grammar) : Step Stmt := do
  let t ← token
  let pos := t.span.start
  match t.kind with
  | .punct ";" => do
    advance
    pure (.empty t.span)
  | .punct "\x7b" => do
    let b ← scopedBlock g
    let span ← spanFrom pos
    pure (.other span [b])
  | .punct "@" => do
    let ds ← decorators g
    let _ ← eatWord "abstract"
    classDeclaration g pos ds
  | .word w false => do
    match ← keywordStatement g w with
    | some s => pure s
    | none => labelled g
  | _ => expressionStatement g

end Grammar

end Script

end TypedSfc
