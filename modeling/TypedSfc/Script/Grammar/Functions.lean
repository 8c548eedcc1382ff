import TypedSfc.Script.Grammar.Patterns

/-!
# Functions and classes

A function is a scope that binds the names of its parameters, with the parameters, the result and the body in it. What is said of it
beside stands before that scope.
-/

namespace TypedSfc

namespace Script

namespace Grammar

open Step

/-- Reads statements between braces. -/
def block (g : Grammar) : Step (List Part) := do
  punct "\x7b"
  let ss ← many do
    if ← atPunct "\x7d" then pure none
    else if ← atEof then pure none
    else do
      let s ← g.statement
      pure (some (.stmt s))
  punct "\x7d"
  pure ss

/-- What is known inside a function. -/
def inFunction (isAsync isGenerator : Bool) (c : Context) : Context :=
  { c with inFunction := true, inAsync := isAsync, inGenerator := isGenerator, inOperator := true, colonEnds := false }

/-- Reads the body of a function as a scope. -/
def functionBody (g : Grammar) (isAsync isGenerator : Bool) : Step Part := do
  let ss ← within (inFunction isAsync isGenerator) (block g)
  pure (.scope .body [] ss)

/-- What a function is read as, from its type parameters on. -/
structure FunctionRest where
  types : List Part
  /-- The parameters, with the parts of their decorators. -/
  params : List (List Part × Pat)
  result : List Part
  body : List Part
  deriving Inhabited

namespace FunctionRest

/-- A function with decorators. -/
def parts (f : FunctionRest) (ds : List Part) : List Part :=
  [.aside false (ds ++ f.types),
    .scope .function (f.params.map (·.2)) (parameterParts f.params ++ .aside false f.result :: f.body)]

/-- A constructor, which binds its parameters without a walk taking note of it. -/
def constructorParts (f : FunctionRest) (key : List Part) : List Part :=
  [.scope .function [] (key ++ parameterParts f.params ++ f.body)]

/-- An accessor of an object. Its key stands outside its function, but a search for calls passes it by with the function. -/
def accessorParts (f : FunctionRest) (key : List Part) : List Part :=
  [.scope .function [] (key ++ [.region .function [] (parameterParts f.params ++ f.result ++ f.body)])]

end FunctionRest

/-- Reads a function from its type parameters on. Where types may be written, a semicolon may stand for the body. -/
def functionRest (g : Grammar) (isAsync isGenerator : Bool) : Step FunctionRest := do
  let ts ← optionalTypeParameters g
  let ps ← within (inFunction isAsync isGenerator) (parameters g)
  let r ← optionalResult g
  let c ← context
  if c.typed && !(← atPunct "\x7b") then
    semicolon
    pure ⟨ts, ps, r, []⟩
  else
    let b ← functionBody g isAsync isGenerator
    pure ⟨ts, ps, r, [b]⟩

/-- Reads the body of an arrow function after its arrow. -/
def arrowBody (g : Grammar) (isAsync : Bool) : Step (List Part) := do
  if ← atPunct "\x7b" then
    let b ← functionBody g isAsync false
    pure [b]
  else
    let e ← within (fun c => { c with inFunction := true, inAsync := isAsync, inGenerator := false }) g.assignment
    pure [.expr e]

/-- The words that may stand before a member of a class. -/
def memberModifiers : List String :=
  ["public", "private", "protected", "static", "abstract", "override", "readonly", "declare", "accessor"]

/-- Whether the current word goes with a member that follows. -/
def beginsMember (s : State) : Bool :=
  let n := s.next.token
  beginsKey n || n.kind == .punct "*" || (n.kind == .punct "\x7b" && s.token.kind == .word "static" false)

/-- Reads the name of a member of a class. -/
def memberKey (g : Grammar) : Step (Option String × List Part) := do
  let t ← token
  match t.kind with
  | .hash _ => do
    advance
    pure (none, [])
  | _ => propertyKey g

/-- Reads a member of a class. -/
def classMember (g : Grammar) : Step (List Part) := do
  let ds ← decorators g
  let words ← many do
    let s ← state
    match s.token.kind with
    | .word w false =>
      if memberModifiers.contains w && beginsMember s then do
        advance
        pure (some w)
      else pure none
    | _ => pure none
  if words.contains "static" && (← atPunct "\x7b") then
    let b ← functionBody g false false
    pure [b]
  else if ← atIndexSignature then
    let ps ← indexSignature g
    memberEnd
    pure ps
  else
    let s ← state
    let n := s.next.token
    let isAsync := s.token.kind == .word "async" false && !n.newline && (beginsKey n || n.kind == .punct "*")
    if isAsync then advance
    let isGenerator ← eat "*"
    let s ← state
    let isAccessor := !isAsync && !isGenerator &&
      (s.token.kind == .word "get" false || s.token.kind == .word "set" false) && beginsKey s.next.token
    if isAccessor then advance
    let t ← token
    let (name, key) ← memberKey g
    let _ ← eat "?"
    let isConstructor := !words.contains "static" && !isAccessor && (name == some "constructor" || (t.kind == .string &&
      (← context).source.length > 0 && describe (← context) t == "'constructor'"))
    let t ← token
    if t.kind == .punct "(" || t.kind == .punct "<" then
      let f ← functionRest g isAsync isGenerator
      let _ ← eat ";"
      if isConstructor then pure (f.constructorParts key)
      else pure (key ++ f.parts ds)
    else
      let _ ← eat "!"
      let ty ← optionalType g
      let value ← if ← eat "=" then (do
          let e ← within (inFunction false false) g.assignment
          pure [Part.expr e])
        else pure []
      if !(← eatSemicolon) then
        let t ← token
        noteAt .noSemicolon t.span
      pure (key ++ value ++ (match ty with
        | some t => t.parts
        | none => []) ++ ds)

/-- Reads what a class extends or implements, after the keyword: a name with type arguments. -/
def heritage (g : Grammar) : Step (List Part) := do
  let i ← dottedName
  let ts ← typeArgumentsHere g
  pure (.expr (.name i) :: ts)

/-- Reads elements with commas between them, at least one. -/
def commaList {α : Type} (p : Step α) : Step (List α) := do
  let a ← p
  let as ← many do
    if ← eat "," then do
      let a ← p
      pure (some a)
    else pure none
  pure (a :: as)

/-- Reads a class after its name: its parts in the order of a visit. -/
def classRest (g : Grammar) : Step (List Part) := do
  let c ← context
  let ts ← optionalTypeParameters g
  let base ← if ← eatWord "extends" then (do
      let e ← g.unary
      let args ← if c.typed && ((← atPunct "<") || (← atPunct "<<")) then (do
          let ts ← typeArguments g
          pure (partsOf ts))
        else pure []
      pure ([Part.expr e], args))
    else pure ([], [])
  let faces ← if c.typed && (← atWord "implements") then (do
      advance
      let fs ← commaList (heritage g)
      pure fs.flatten)
    else pure []
  punct "\x7b"
  let ms ← many do
    if ← atPunct "\x7d" then pure none
    else if ← eat ";" then pure (some [])
    else do
      let m ← classMember g
      pure (some m)
  punct "\x7d"
  pure (ms.flatten ++ base.1 ++ ts ++ base.2 ++ faces)

/-- Reads the name of a class, if it has one. -/
def className : Step (Option Ident) := do
  let t ← token
  if t.isName && t.kind != .word "implements" false then
    let i ← identifier
    pure (some i)
  else pure none

end Grammar

end Script

end TypedSfc
