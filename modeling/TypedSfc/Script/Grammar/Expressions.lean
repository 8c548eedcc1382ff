import TypedSfc.Script.Grammar.Functions

/-!
# Expressions

An expression is an operand, the members and calls behind it, the operators around it, and at last what is assigned to it. An arrow
function is looked for where an assignment may begin, before anything else is.
-/

namespace TypedSfc

namespace Script

namespace Grammar

open Step

/-- A place in which no operator is held back. -/
def enclosed (c : Context) : Context := { c with inOperator := true, colonEnds := false }

/-- Reads an expression in which commas may stand. -/
def expression (g : Grammar) : Step Expr := do
  let pos ← start
  let e ← g.assignment
  if ← atPunct "," then
    let es ← many do
      if ← eat "," then do
        let e ← g.assignment
        pure (some e)
      else pure none
    let span ← spanFrom pos
    pure (.other span ((e :: es).map .expr))
  else pure e

/-! ## Literals -/

/-- Reads a regular expression, of which the slash is current. One that is not closed is reported for each look at it. -/
def regExp : Step Expr := fun _ s =>
  let t := s.token.span
  match Lexer.regExpBody false 0 s.rest with
  | some (size, rest) =>
    let flags := rest.takeWhile Text.isIdentPart
    let span : Span := ⟨t.start, t.stop + size + Text.size flags⟩
    .ok (.other span []) { s with token := ⟨.punct "/", span, false⟩, rest := rest.drop flags.length }.next
  | none =>
    let line := s.rest.takeWhile fun c => !Lexer.isLineEnd c
    let e : Error := ⟨.openRegExp, ⟨t.start, t.stop + Text.size line⟩⟩
    .fail e { s with token := { s.token with kind := .bad e.fault }, errors := e :: e :: s.errors }

/-- Reads a template from its backtick on: the expressions in it. -/
def template (g : Grammar) : Step (List Part) :=
  templateParts do
    let e ← within enclosed (expression g)
    pure [.expr e]

/-- Reads what may be spread: an element of an array or an argument. -/
def spreadable (g : Grammar) : Step Expr := do
  let pos ← start
  if ← eat "..." then
    let e ← g.assignment
    let span ← spanFrom pos
    pure (.spread span e)
  else g.assignment

/-- Reads arguments from their parenthesis on. -/
def arguments (g : Grammar) : Step (List Expr) := do
  punct "("
  within enclosed (listUntil ")" (spreadable g))

/-- Reads an array from its bracket on. -/
def array (g : Grammar) : Step Expr := do
  let pos ← start
  punct "["
  let es ← within enclosed (sparseList "]" (spreadable g))
  let span ← spanFrom pos
  pure (.array span es)

/-- Reads the rest of a method: its parameters and its body. -/
def method (g : Grammar) (isAsync isGenerator : Bool) : Step Property := do
  let (_, key) ← propertyKey g
  let f ← functionRest g isAsync isGenerator
  pure (.other (key ++ f.parts []))

/-- Reads an accessor after its first word. Of the result only that of one that reads is kept. -/
def accessor (g : Grammar) (reads : Bool) : Step Property := do
  let (_, key) ← propertyKey g
  let f ← functionRest g false false
  pure (.other ((if reads then f else { f with result := [] }).accessorParts key))

/-- Whether a token begins the parameters of a method. -/
def beginsParameters (t : Token) : Bool := t.kind == .punct "(" || t.kind == .punct "<"

/-- Reads what stands in an object literal. -/
def property (g : Grammar) : Step Property := do
  let s ← state
  let n := s.next.token
  if ← eat "..." then
    let e ← g.assignment
    pure (.spread e)
  else if ← eat "*" then method g false true
  else if s.token.kind == .word "async" false && !n.newline && (beginsKey n || n.kind == .punct "*") then
    advance
    let isGenerator ← eat "*"
    method g true isGenerator
  else if (s.token.kind == .word "get" false || s.token.kind == .word "set" false) && beginsKey n then
    advance
    accessor g (s.token.kind == .word "get" false)
  else
    let (name, key) ← propertyKey g
    let t ← token
    if ← eat ":" then
      let e ← g.assignment
      pure (.pair name key e)
    else if beginsParameters t then
      let f ← functionRest g false false
      pure (.other (key ++ f.parts []))
    else
      match name with
      | none => missing ":"
      | some w => do
        let id : Ident := ⟨w, s.token.span.start⟩
        if ← eat "=" then
          let e ← g.assignment
          pure (.covered id e)
        else pure (.shorthand id)

/-- Reads an object literal from its brace on. -/
def object (g : Grammar) : Step Expr := do
  let pos ← start
  punct "\x7b"
  let ps ← within enclosed (listUntil "\x7d" (property g))
  let span ← spanFrom pos
  pure (.object span ps)

/-- Whether an expression is spread. -/
def isSpread : Expr → Bool
  | .spread .. => true
  | _ => false

/-- Reads an expression in parentheses, or several of them with commas between, and maybe one behind them. An arrow behind the
parentheses shows that they are the parameters of a function, if one may stand here. -/
def parenthesized (g : Grammar) : Step Expr := do
  let pos ← start
  punct "("
  let from' ← start
  if ← atPunct ")" then fail .noExpression
  else
    let es ← within enclosed (listUntil ")" (spreadable g))
    let c ← context
    let t ← token
    if c.arrowStart == some pos && t.kind == .punct "=>" && !t.newline then
      advance
      let body ← arrowBody g false
      let span ← spanFrom pos
      pure (.arrow span [] (withoutEarlyRests (es.map binding)) body)
    else
      match es.find? isSpread with
      | some e => failAt .noExpression e.span
      | none => do
        let span ← spanFrom pos
        pure (.paren span (match es with
          | [e] => e
          | _ => .other ⟨from', ((es.getLast?).map (·.span.stop)).getD from'⟩ (es.map .expr)))

/-! ## Operands -/

/-- Reads a function from its keyword on: its name, if it has one, and its parts. -/
def functionValue (g : Grammar) (isAsync : Bool) : Step (Option Ident × List Part) := do
  keyword "function"
  let isGenerator ← eat "*"
  let t ← token
  let name ← if t.isName then (do
      let i ← identifier
      pure (some i))
    else pure none
  let f ← functionRest g isAsync isGenerator
  pure (name, f.parts [])

/-- Reads a class from its keyword on: its name, if it has one, and its parts. -/
def classValue (g : Grammar) : Step (Option Ident × List Part) := do
  keyword "class"
  let name ← className
  let ps ← classRest g
  pure (name, ps)

/-- Reads a function as an expression; it began at `pos`. It knows itself by its own name. -/
def functionExpression (g : Grammar) (pos : Nat) (isAsync : Bool) : Step Expr := do
  let (name, ps) ← functionValue g isAsync
  let span ← spanFrom pos
  pure (.other span [.region .block name.toList ps])

/-- Reads a class as an expression, after its decorators; it began at `pos`. It knows itself by its own name. -/
def classExpression (g : Grammar) (pos : Nat) (ds : List Part) : Step Expr := do
  let (name, ps) ← classValue g
  let span ← spanFrom pos
  pure (.other span (ds ++ [.region .block name.toList ps]))

/-- Reads an operand without what may stand behind it. `new` is read elsewhere. -/
def primary (g : Grammar) : Step Expr := do
  let t ← token
  let plain : Step Expr := do
    advance
    pure (.other t.span [])
  match t.kind with
  | .number | .hash _ => plain
  | .string => do
    advance
    pure (.string t.span)
  | .punct "(" => parenthesized g
  | .punct "[" => array g
  | .punct "\x7b" => object g
  | .punct "\x60" => do
    let ps ← template g
    let span ← spanFrom t.span.start
    pure (.other span ps)
  | .punct "/" | .punct "/=" => regExp
  | .punct "<" => do
    let c ← context
    if c.markup then
      let e ← g.element
      closeAngle
      pure e
    else fail .noExpression
  | .punct "@" => do
    let ds ← decorators g
    classExpression g t.span.start ds
  | .word w escaped =>
    if escaped then do
      advance
      pure (.name ⟨w, t.span.start⟩)
    else if w == "function" then functionExpression g t.span.start false
    else if w == "class" then classExpression g t.span.start []
    else if w == "true" || w == "false" then do
      advance
      pure (.bool t.span (w == "true"))
    else if w == "this" || w == "null" || w == "super" then plain
    else if w == "import" then do
      let n ← peek
      if n.kind == .punct "(" then plain
      else if n.kind == .punct "." then do
        advance
        advance
        let _ ← identName
        let span ← spanFrom t.span.start
        pure (.other span [])
      else fail .noExpression
    else if w == "async" then do
      let n ← peek
      if n.kind == .word "function" false && !n.newline then do
        advance
        functionExpression g t.span.start true
      else do
        advance
        pure (.name ⟨w, t.span.start⟩)
    else if (reservedWords.contains w && w != "let") || guardedWords.contains w then fail .noExpression
    else do
      advance
      pure (.name ⟨w, t.span.start⟩)
  | _ => fail .noExpression

/-- The words of operators between two operands, with how tightly they bind. -/
def wordOperators : List (String × Nat) := [("instanceof", 7), ("in", 7)]

/-- The signs of operators between two operands, with how tightly they bind. -/
def signOperators : List (String × Nat) :=
  [("??", 1), ("||", 1), ("&&", 2), ("|", 3), ("^", 4), ("&", 5), ("==", 6), ("!=", 6), ("===", 6), ("!==", 6), ("<", 7), (">", 7),
    ("<=", 7), (">=", 7), ("<<", 8), (">>", 8), (">>>", 8), ("+", 9), ("-", 9), ("*", 10), ("/", 10), ("%", 10), ("**", 11)]

/-- How tightly a token binds as an operator between two operands. -/
def precedence (c : Context) (t : Token) : Option Nat :=
  match t.kind with
  | .punct p => signOperators.lookup p
  | .word w false => if w == "in" && !c.inOperator then none else wordOperators.lookup w
  | _ => none

/-- Whether a token is an operator between two operands, wherever it stands. -/
def isOperator (t : Token) : Bool :=
  match t.kind with
  | .punct p => (signOperators.lookup p).isSome
  | .word w false => (wordOperators.lookup w).isSome
  | _ => false

/-- Whether an expression may begin with a token. -/
def beginsExpression (t : Token) : Bool :=
  match t.kind with
  | .number | .string | .hash _ => true
  | .punct p => ["(", "[", "\x7b", "\x60", "/", "/=", "<", "<<", "+", "-", "~", "!", "++", "--", "@"].contains p
  | .word w _ =>
    !reservedWords.contains w || ["await", "class", "delete", "false", "function", "import", "new", "null", "super", "this", "true",
      "typeof", "void", "yield"].contains w
  | _ => false

/-- An expression, and whether it may be assigned to. -/
structure Operand where
  expr : Expr
  isTarget : Bool
  deriving Inhabited

/-- An expression that may be assigned to if its form is one of those that may. -/
def Operand.ofForm (e : Expr) : Operand :=
  ⟨e, match e with
    | .name _ | .member .. | .paren .. | .array .. | .object .. => true
    | _ => false⟩

/-- Reads type arguments behind an operand, when what follows them fits: a call, a template, or no operand. -/
def instantiated (g : Grammar) (canCall : Bool) (pos : Nat) (e : Expr) : Step (Option Operand) := do
  let ts ← typeArguments g
  let t ← token
  if canCall && t.kind == .punct "(" then
    let es ← arguments g
    let span ← spanFrom pos
    pure (some ⟨.call span e (ts.map (·.span)) (partsOf ts) es, false⟩)
  else if t.kind == .punct "\x60" then
    let ps ← template g
    let span ← spanFrom pos
    pure (some ⟨.other span (.expr e :: partsOf ts ++ ps), false⟩)
  else if t.kind == .punct "(" then pure none
  else if t.newline || isOperator t || !beginsExpression t then
    let span ← spanFrom pos
    pure (some ⟨.other span (.expr e :: partsOf ts), true⟩)
  else pure none

/-- Reads a computed key with its brackets. -/
def computedKey (g : Grammar) : Step (List Part) := do
  punct "["
  let k ← within enclosed (expression g)
  punct "]"
  pure [.expr k]

/-- Reads the name after a dot. -/
def memberName : Step Unit := do
  let t ← token
  match t.kind with
  | .hash _ => advance
  | _ => do
    let _ ← identName
    pure ()

/-- Reads what stands behind `?.`, with the type arguments a call may have. -/
def optionalMember (g : Grammar) : Step (List Part) := do
  let c ← context
  let t ← token
  let call : Step (List Part) := do
    let es ← arguments g
    pure (es.map .expr)
  match t.kind with
  | .punct "[" => computedKey g
  | .punct "(" => call
  | .punct "\x60" => template g
  | .punct "<" => do
    if c.typed then
      let ts ← typeArguments g
      let ps ← call
      pure (ps ++ partsOf ts)
    else fail .noExpression
  | _ => do
    memberName
    pure []

/-- Reads one thing behind an operand that began at `pos`: a member, a call, a template or type arguments. -/
def suffix (g : Grammar) (canCall : Bool) (pos : Nat) (e : Operand) : Step (Option Operand) := do
  let c ← context
  let t ← token
  let e := e.expr
  match t.kind with
  | .punct "!" =>
    if c.typed && !t.newline then do
      advance
      let span ← spanFrom pos
      pure (some ⟨.other span [.expr e], true⟩)
    else pure none
  | .punct "<" | .punct "<<" =>
    if c.typed then attemptQuiet (instantiated g canCall pos e) else pure none
  | .punct "?." =>
    if canCall then do
      advance
      let ps ← optionalMember g
      let span ← spanFrom pos
      pure (some ⟨.other span (.expr e :: ps), true⟩)
    else pure none
  | .punct "[" => do
    let k ← computedKey g
    let span ← spanFrom pos
    pure (some ⟨.member span e k, true⟩)
  | .punct "." => do
    advance
    memberName
    let span ← spanFrom pos
    pure (some ⟨.member span e [], true⟩)
  | .punct "(" =>
    if canCall then do
      let es ← arguments g
      let span ← spanFrom pos
      pure (some ⟨.call span e [] [] es, false⟩)
    else pure none
  | .punct "\x60" => do
    let ps ← template g
    let span ← spanFrom pos
    pure (some ⟨.other span (.expr e :: ps), false⟩)
  | _ => pure none

/-- Reads an object that is made: what makes it, and the arguments if there are any. -/
def newExpression (g : Grammar) : Step Expr := do
  let pos ← start
  keyword "new"
  if ← eat "." then
    let _ ← identName
    let span ← spanFrom pos
    pure (.other span [])
  else
    let c ← context
    let from' ← start
    let callee ← if ← atWord "new" then g.unary else (do
      let e ← primary g
      let e ← grow (suffix g false from') ⟨e, false⟩
      pure e.expr)
    let types ← if c.typed then attemptQuiet (do
        if ← atPunct "<" then do
          let ts ← typeArguments g
          if ← atPunct "(" then pure (some ts) else pure none
        else pure none)
      else pure none
    let es ← if ← atPunct "(" then arguments g else pure []
    let span ← spanFrom pos
    pure (.other span (.expr callee :: es.map .expr ++ partsOf (types.getD [])))

/-- Reads an operand with the members and calls behind it. -/
def operand (g : Grammar) : Step Operand := do
  let pos ← start
  let e ← if ← atWord "new" then newExpression g else primary g
  grow (suffix g true pos) (.ofForm e)

/-! ## Operators -/

/-- The operators before an operand. -/
def isPrefixOperator (t : Token) : Bool :=
  match t.kind with
  | .punct p => ["+", "-", "~", "!"].contains p
  | .word w false => ["delete", "void", "typeof"].contains w
  | _ => false

/-- Goes on after a step that fails, from where it stopped, with the fault noted. -/
def recovered {α : Type} (p : Step α) : Step (Option α) := fun c s =>
  match p c s with
  | .ok a s => .ok (some a) s
  | .fail e s => .ok none { s with errors := e :: s.errors }

/-- Reads a value under a type that it is taken as, the brackets of which stand before it. -/
def assertion (g : Grammar) : Step Operand := do
  let pos ← start
  let n ← peek
  let ps ← if n.kind == .word "const" false then (do
      advance
      advance
      pure [])
    else (do
      advance
      let t ← anyType g
      pure t.parts)
  closeAngle
  let e ← g.unary
  let span ← spanFrom pos
  pure ⟨.other span (.expr e :: ps), n.kind != .word "const" false⟩

/-- Reads an operand with the operators directly before and after it. -/
def prefixed (g : Grammar) : Step Operand := do
  let c ← context
  let t ← token
  let pos := t.span.start
  let parts : List Part → Step Operand := fun ps => do
    let span ← spanFrom pos
    pure ⟨.other span ps, false⟩
  if c.typed && !c.markup && t.kind == .punct "<" then assertion g
  else if t.kind == .punct "++" || t.kind == .punct "--" then
    advance
    let e ← g.unary
    parts [.expr e]
  else if isPrefixOperator t then
    advance
    let e ← recovered g.unary
    if ← atPunct "**" then fail (.misplaced "**")
    else parts (match e with
      | some e => [.expr e]
      | none => [])
  else if t.kind == .word "await" false then
    advance
    if c.inFunction && !c.inAsync then noteAt (.misplaced "await") t.span
    let e ← g.unary
    parts [.expr e]
  else
    let e ← operand g
    let t ← token
    if !t.newline && (t.kind == .punct "++" || t.kind == .punct "--") then
      advance
      parts [.expr e.expr]
    else pure e

/-- Reads an operand with the operators directly before and after it. -/
def unaryOf (g : Grammar) : Step Expr := do
  let e ← prefixed g
  pure e.expr

/-- Reads operators that bind more tightly than `least` and their right operands, after a left operand that began at `pos`. `fuel`
bounds the depth of right operands. -/
def binaryFrom (g : Grammar) (pos : Nat) : Nat → Nat → Operand → Step Operand
  | 0, _, left => pure left
  | fuel + 1, least, left =>
    grow (fun e => do
      let e := e.expr
      let c ← context
      let t ← token
      let cast := c.typed && !t.newline && least < 7
      if cast && t.kind == .word "as" false then do
        advance
        if ← eatWord "const" then do
          let span ← spanFrom pos
          pure (some ⟨.other span [.expr e], false⟩)
        else do
          let ty ← anyType g
          let span ← spanFrom pos
          pure (some ⟨.cast span e ty.parts, true⟩)
      else if cast && t.kind == .word "satisfies" false then do
        advance
        let ty ← anyType g
        let span ← spanFrom pos
        pure (some ⟨.other span (.expr e :: ty.parts), true⟩)
      else
        match precedence c t with
        | none => pure none
        | some p => do
          if p ≤ least then pure none
          else do
            advance
            let from' ← start
            let right ← prefixed g
            let right ← binaryFrom g from' fuel (if t.kind == .punct "**" then p - 1 else p) right
            let span ← spanFrom pos
            pure (some ⟨.other span [.expr e, .expr right.expr], false⟩)) left

/-- Reads operators and operands. Where a left operand is missing before an operator, that is noted at the operator and the reading
goes on. -/
def binary (g : Grammar) : Step Operand := fun c s =>
  let pos := s.token.span.start
  let fuel := s.rest.length + 2
  match prefixed g c s with
  | .ok left s => binaryFrom g pos fuel 0 left c s
  | .fail e s =>
    if isOperator s.token then
      binaryFrom g pos fuel 0 ⟨.other s.token.span [], false⟩ c { s with errors := ⟨.noExpression, s.token.span⟩ :: s.errors }
    else .fail e s

/-- Reads an expression with its conditions. -/
def conditional (g : Grammar) : Step Operand := do
  let pos ← start
  let test ← binary g
  if ← eat "?" then
    let yes ← within (fun c => { c with inOperator := true, colonEnds := true }) g.assignment
    punct ":"
    let no ← within (fun c => { c with colonEnds := false }) g.assignment
    let span ← spanFrom pos
    pure ⟨.other span [.expr test.expr, .expr yes, .expr no], false⟩
  else pure test

/-- The operators that assign. -/
def assignOperators : List String :=
  ["=", "+=", "-=", "*=", "/=", "%=", "**=", "<<=", ">>=", ">>>=", "&=", "|=", "^=", "&&=", "||=", "??="]

/-! ## Arrow functions -/

/-- Whether a parameter stands for the object that a function is called on. -/
def isThis : Pat → Bool
  | .name i _ _ => i.name == "this"
  | _ => false

/-- What stands before the arrow of a function. -/
structure ArrowHead where
  types : List Part
  params : List Pat
  result : List Part
  deriving Inhabited

/-- Reads an arrow function up to its arrow, if this is one. Where a colon ends the expression, a function with a result type is one
only if a colon follows its body. -/
def arrowHead (g : Grammar) (isAsync : Bool) : Step (Option ArrowHead) := do
  let c ← context
  attemptQuiet do
    let ts ← optionalTypeParameters g
    let ps ← within (inFunction isAsync false) (parameters g)
    let hasResult ← atPunct ":"
    let r ← optionalResult g
    let t ← token
    if t.newline || t.kind != .punct "=>" then pure none
    else if ps.any fun p => isThis p.2 then pure none
    else do
      advance
      let h : ArrowHead := ⟨ts, withoutEarlyRests (ps.map (·.2)), r⟩
      if c.colonEnds && hasResult then do
        let colon ← lookAhead do
          let _ ← arrowBody g isAsync
          atPunct ":"
        pure (if colon == some true then some h else none)
      else pure (some h)

/-- Reads the body of an arrow function that began at `pos`. -/
def arrowFrom (g : Grammar) (pos : Nat) (isAsync : Bool) (h : ArrowHead) : Step Expr := do
  let body ← arrowBody g isAsync
  let span ← spanFrom pos
  pure (.arrow span h.types h.params (.aside false h.result :: body))

/-- Whether a name and an arrow are here, without a line between them. -/
def atNamedArrow (s : State) : Bool :=
  let n := s.next.token
  s.token.isName && n.kind == .punct "=>" && !n.newline

/-- Reads an arrow function if one begins here. -/
def arrow (g : Grammar) : Step (Option Expr) := do
  let c ← context
  let s ← state
  let pos := s.token.span.start
  let named : Bool → Step (Option Expr) := fun isAsync => do
    let i ← identifier
    advance
    let e ← arrowFrom g pos isAsync ⟨[], [.name i none []], []⟩
    pure (some e)
  let listed : Bool → Step (Option Expr) := fun isAsync => do
    match ← arrowHead g isAsync with
    | none => pure none
    | some h => do
      let e ← arrowFrom g pos isAsync h
      pure (some e)
  if atNamedArrow s then named false
  else if s.token.kind == .punct "(" || (c.typed && s.token.kind == .punct "<") then listed false
  else if s.token.kind == .word "async" false && !s.next.token.newline then
    if atNamedArrow s.next then do
      advance
      named true
    else if s.next.token.kind == .punct "(" || (c.typed && s.next.token.kind == .punct "<") then do
      let found ← lookAhead do
        advance
        arrowHead g true
      if (found.getD none).isSome then do
        advance
        listed true
      else pure none
    else pure none
  else pure none

/-- Reads what a generator hands out. -/
def yielded (g : Grammar) : Step Expr := do
  let pos ← start
  keyword "yield"
  let isAll ← eat "*"
  let t ← token
  if isAll || (!t.newline && beginsExpression t) then
    let e ← g.assignment
    let span ← spanFrom pos
    pure (.other span [.expr e])
  else
    let span ← spanFrom pos
    pure (.other span [])

/-- The place that an assignment by an operator writes to, if it may. Only a plain one takes arrays and objects apart. -/
def Operand.target? (e : Operand) (operator : String) : Option Pat :=
  match e.expr with
  | .array .. | .object .. => if operator == "=" then some (assignable e.expr) else none
  | x => if e.isTarget then some (.target x) else none

/-- Reads an expression without commas. -/
def assignmentOf (g : Grammar) : Step Expr := do
  let c ← context
  if c.inGenerator && (← atWord "yield") then yielded g
  else
    match ← arrow g with
    | some e => pure e
    | none => do
      let pos ← start
      let e ← within (fun c => { c with arrowStart := some pos }) (conditional g)
      let t ← token
      match t.kind with
      | .punct p =>
        if assignOperators.contains p then do
          match e.target? p with
          | none => failAt .noTarget e.expr.span
          | some target => do
            advance
            let v ← g.assignment
            let span ← spanFrom pos
            pure (.assign span target v)
        else pure e.expr
      | _ => pure e.expr

end Grammar

end Script

end TypedSfc
