import TypedSfc.Script.Grammar.Elements
import TypedSfc.Script.Grammar.Statements

/-!
# Imports and exports

The items of a module: its imports and exports, and the statements between them.
-/

namespace TypedSfc

namespace Script

namespace Grammar

open Step

/-- Reads the name of a module, in quotes. -/
def moduleName : Step Span := do
  let t ← token
  match t.kind with
  | .string => do
    advance
    pure t.span
  | _ => unexpected "a string literal"

/-- Reads what is said of an import behind the name of its module, and answers what stands in it. -/
def importRest (g : Grammar) : Step (List Part) := do
  let s ← state
  let ps ← if s.token.kind == .word "with" false || (s.token.kind == .word "assert" false && !s.token.newline) then (do
      advance
      let e ← object g
      pure [.expr e])
    else pure []
  semicolon
  pure ps

/-- Reads a name under which something is exported: a word or a string, with whether it is a string. -/
def exportedName : Step (Ident × Bool) := do
  let t ← token
  match t.kind with
  | .string => do
    advance
    pure (⟨"", t.span.start⟩, true)
  | _ => do
    let i ← identName
    pure (i, false)

/-- Reads a name between the braces of an import or an export: the name on the other side, the name given to it here if it is
another, and whether only its type is meant. -/
def specifier : Step ((Ident × Bool) × Option (Ident × Bool) × Bool) := do
  let s ← state
  let n := s.next
  let hasName := fun (t : Token) => t.word?.isSome || t.kind == .string
  let typeOnly := s.token.kind == .word "type" false && hasName n.token &&
    (n.token.kind != .word "as" false || !hasName n.next.token ||
      (n.next.token.kind == .word "as" false && hasName n.next.next.token))
  if typeOnly then advance
  let name ← exportedName
  if ← eatWord "as" then
    let local' ← exportedName
    pure (name, some local', typeOnly)
  else pure (name, none, typeOnly)

/-- Reads a name that an import binds. -/
def importName : Step ImportName := do
  let t ← token
  match ← specifier with
  | ((i, false), none, typeOnly) =>
    if reservedWords.contains i.name then failAt (.unexpected i.name "identifier") t.span
    else pure (.named i typeOnly false)
  | ((_, true), none, _) => missing "as"
  | ((i, quoted), some (j, _), typeOnly) => pure (.named j typeOnly (!quoted && i.name == "default"))

/-- Reads the names that an import binds without a default: the whole module, or names between braces. -/
def importNames : Step (List ImportName) := do
  if ← eat "*" then
    keyword "as"
    let i ← identifier
    pure [.module i]
  else
    punct "\x7b"
    listUntil "\x7d" importName

/-- Reads an import after its keyword. -/
def importItem (g : Grammar) (pos : Nat) : Step Item := do
  let c ← context
  let s ← state
  let n := s.next
  let done : Bool → List ImportName → Step Item := fun typeOnly names => do
    let source ← moduleName
    let ps ← importRest g
    let span ← spanFrom pos
    pure (.imports span typeOnly names source ps)
  if s.token.kind == .string then done false []
  else
    let typeOnly := c.typed && s.token.kind == .word "type" false &&
      (n.token.kind == .punct "\x7b" || n.token.kind == .punct "*" ||
        (n.token.isName && (n.token.kind != .word "from" false || n.next.token.kind == .word "from" false ||
          n.next.token.kind == .punct "=")))
    let phased := (s.token.kind == .word "defer" false && n.token.kind == .punct "*") ||
      (s.token.kind == .word "source" false && n.token.isName &&
        (n.token.kind != .word "from" false || n.next.token.kind == .word "from" false))
    if typeOnly || phased then advance
    let t ← token
    if t.kind == .punct "\x7b" || t.kind == .punct "*" then
      let names ← importNames
      keyword "from"
      done typeOnly names
    else
      let i ← identifier
      if c.typed && (← eat "=") then
        let _ ← g.assignment
        semicolon
        let span ← spanFrom pos
        pure (.importEquals span typeOnly false i)
      else
        let more ← if ← eat "," then importNames else pure []
        keyword "from"
        done typeOnly (.default i :: more)

/-- Reads the rest of an export of names or of another module, after the word that may say that only types are meant. -/
def exportNames (g : Grammar) (pos : Nat) : Step Item := do
  let done : List Part → Step Item := fun ps => do
    let span ← spanFrom pos
    pure (.exports span ps)
  if ← eat "*" then
    if ← eatWord "as" then
      let _ ← exportedName
    keyword "from"
    let _ ← moduleName
    let ps ← importRest g
    done ps
  else
    punct "\x7b"
    let _ ← listUntil "\x7d" specifier
    if ← eatWord "from" then
      let _ ← moduleName
      let ps ← importRest g
      done ps
    else
      semicolon
      done []

/-- Reads what is exported as the default, after both keywords. -/
def exportDefault (g : Grammar) (pos : Nat) (ds : List Part) : Step Item := do
  let c ← context
  let s ← state
  let own := s.token.span.start
  let n := s.next.token
  let done : Step (Option Ident × List Part) → Step Item := fun p => do
    let (name, ps) ← p
    let declaration ← spanFrom own
    let span ← spanFrom pos
    pure (.exportDefault span declaration name ps)
  let function : Bool → Step Item := fun isAsync => done (functionValue g isAsync)
  let classed : List Part → Step Item := fun ds => done do
    let (name, ps) ← classValue g
    pure (name, ds ++ ps)
  match s.token.kind with
  | .word "function" false => function false
  | .word "class" false => classed ds
  | .punct "@" => do
    let ds ← decorators g
    classed ds
  | _ =>
    if s.token.kind == .word "async" false && n.kind == .word "function" false && !n.newline then
      advance
      function true
    else if c.typed && s.token.kind == .word "abstract" false && n.kind == .word "class" false && !n.newline then
      advance
      classed ds
    else if c.typed && s.token.kind == .word "interface" false && n.isName && !n.newline then
      done do
        let ps ← interface g
        pure (none, ps)
    else
      let e ← g.assignment
      semicolon
      let span ← spanFrom pos
      pure (.exportValue span e)

/-- Reads an export after its keyword; decorators may stand before it. -/
def exportItem (g : Grammar) (pos : Nat) (ds : List Part) : Step Item := do
  let c ← context
  let s ← state
  let n := s.next.token
  if ← eatWord "default" then exportDefault g pos ds
  else if s.token.kind == .punct "*" || s.token.kind == .punct "\x7b" then exportNames g pos
  else if c.typed && s.token.kind == .word "type" false && (n.kind == .punct "\x7b" || n.kind == .punct "*") then
    advance
    exportNames g pos
  else if c.typed && s.token.kind == .punct "=" then
    advance
    let e ← expression g
    semicolon
    let span ← spanFrom pos
    pure (.other span [.expr e])
  else if c.typed && s.token.kind == .word "as" false && n.kind == .word "namespace" false then
    advance
    advance
    let _ ← identifier
    semicolon
    let span ← spanFrom pos
    pure (.other span [])
  else if c.typed && s.token.kind == .word "import" false then
    advance
    let s ← state
    let n := s.next.token
    let typeOnly := s.token.kind == .word "type" false && n.isName
    if typeOnly then advance
    let i ← identifier
    punct "="
    let _ ← g.assignment
    semicolon
    let span ← spanFrom pos
    pure (.importEquals span typeOnly true i)
  else
    let declaration ← if s.token.kind == .word "class" false then classDeclaration g s.token.span.start ds else g.statement
    let span ← spanFrom pos
    match declaration with
    | .expr .. | .empty _ | .leave .. => failAt (.unexpected (describe c s.token) "\x7b") s.token.span
    | d => pure (.exports span [.decl d])

/-- Reads an item of a module. -/
def item (g : Grammar) : Step Item := do
  let s ← state
  let pos := s.token.span.start
  let n := s.next.token
  match s.token.kind with
  | .word "import" false =>
    if n.kind == .punct "(" || n.kind == .punct "." then do
      let st ← g.statement
      pure (.stmt st)
    else do
      advance
      importItem g pos
  | .word "export" false => do
    advance
    exportItem g pos []
  | .punct "@" => do
    let ds ← decorators g
    if ← eatWord "export" then exportItem g pos ds
    else
      let _ ← eatWord "abstract"
      let st ← classDeclaration g pos ds
      pure (.stmt st)
  | _ => do
    let st ← g.statement
    pure (.stmt st)

/-- Reads an item for what stands in it. -/
def itemParts (g : Grammar) : Step (List Part) := do
  match ← item g with
  | .stmt s => pure [.stmt s]
  | .exportValue _ e => pure [.expr e]
  | .imports _ _ _ _ ps | .exportDefault _ _ _ ps | .exports _ ps | .other _ ps => pure ps
  | .importEquals .. => pure []

/-- Reads all items of a module. -/
def items (g : Grammar) : Step (List Item) :=
  many do
    if ← atEof then pure none
    else do
      let i ← item g
      pure (some i)

end Grammar

end Script

end TypedSfc
