import TypedSfc.Script.Token
import TypedSfc.Script.Tree

/-!
# Steps of the grammar

A step reads from the token that is current. It answers what it read and the state after it, or the fault that stopped it and the
state in which it stopped, because some constructs go on from there.
-/

namespace TypedSfc

namespace Script

/-- What is known of the place that is read. -/
structure Context where
  source : List Char
  /-- Whether types may be written. -/
  typed : Bool
  /-- Whether markup may be written. -/
  markup : Bool
  /-- Whether `in` is an operator; in the head of a loop it is not. -/
  inOperator : Bool := true
  /-- Whether a colon ends the expression, as it does in a conditional one. -/
  colonEnds : Bool := false
  /-- Whether a conditional type may follow. -/
  conditionalType : Bool := true
  /-- Whether what is declared here is defined elsewhere, so that constants need no values. -/
  isAmbient : Bool := false
  inFunction : Bool := false
  inAsync : Bool := false
  inGenerator : Bool := false
  /-- Where the expression began whose first operand may turn out to be the parameters of a function. -/
  arrowStart : Option Nat := none
  deriving Inhabited

/-- Where a reading stands: the current token, the text after it, and the end of the token before. -/
structure State where
  token : Token
  rest : List Char
  previous : Nat
  /-- The comments passed, latest first. -/
  comments : List Comment
  /-- The faults noted, latest first. -/
  errors : List Error
  deriving Inhabited

/-- What a step comes to. -/
inductive Outcome (α : Type) where
  | ok (value : α) (state : State)
  | fail (error : Error) (state : State)

/-- A step of the grammar. -/
def Step (α : Type) : Type := Context → State → Outcome α

namespace Step

/-- The step that reads nothing. -/
def ret {α : Type} (a : α) : Step α := fun _ s => .ok a s

/-- One step after another. -/
def andThen {α β : Type} (p : Step α) (f : α → Step β) : Step β := fun c s =>
  match p c s with
  | .ok a s => f a c s
  | .fail e s => .fail e s

instance : Monad Step where
  pure := ret
  bind := andThen

instance {α : Type} : Inhabited (Step α) := ⟨fun _ s => .fail ⟨.noExpression, s.token.span⟩ s⟩

end Step

/-- The state at the token that follows some trivia. -/
def State.after (s : State) (t : Lexer.Trivia) : State :=
  let (t, text) := Lexer.trivia .between t s.rest
  let (kind, size, rest) := Lexer.scan text
  let stop := t.pos + size
  let strings := match kind with
    | .string => if Lexer.isClosedString text then [] else [⟨.openString, ⟨t.pos, stop⟩⟩]
    | _ => []
  { token := ⟨kind, ⟨t.legacy.getD t.pos, stop⟩, t.newline⟩
    rest := rest
    previous := s.token.span.stop
    comments := t.comments ++ s.comments
    errors := strings ++ t.errors ++ s.errors }

/-- The state after the current token. -/
def State.next (s : State) : State := s.after { pos := s.token.span.stop }

/-- Drops a first line that begins with `#!`. -/
def dropShebang : List Char → Nat × List Char
  | '#' :: '!' :: cs =>
    let line := cs.takeWhile fun c => !Lexer.isLineEnd c
    (2 + Text.size line, cs.dropWhile fun c => !Lexer.isLineEnd c)
  | cs => (0, cs)

/-- The state at the first token of a text. A line is held to end before it. -/
def State.start (source : List Char) : State :=
  let (pos, rest) := dropShebang source
  let s : State := ⟨⟨.eof, ⟨pos, pos⟩, false⟩, rest, pos, [], []⟩
  { s.after { pos := pos, newline := true } with previous := 0 }

namespace Step

/-- The state. -/
def state : Step State := fun _ s => .ok s s

/-- What is known of the place. -/
def context : Step Context := fun c s => .ok c s

/-- A step in another context. -/
def within {α : Type} (f : Context → Context) (p : Step α) : Step α := fun c s => p (f c) s

/-- The current token. -/
def token : Step Token := fun _ s => .ok s.token s

/-- Where the current token starts. -/
def start : Step Nat := fun _ s => .ok s.token.span.start s

/-- The place from a position up to the last token read. -/
def spanFrom (pos : Nat) : Step Span := fun _ s => .ok ⟨pos, max pos s.previous⟩ s

/-- Past the current token. -/
def advance : Step Unit := fun _ s => .ok () s.next

/-- Stops with a fault at a place. -/
def failAt {α : Type} (f : Fault) (span : Span) : Step α := fun _ s => .fail ⟨f, span⟩ s

/-- Stops with a fault at the current token; a token that is itself at fault says so instead. -/
def fail {α : Type} (f : Fault) : Step α := fun _ s =>
  match s.token.kind with
  | .bad g => .fail ⟨g, s.token.span⟩ s
  | _ => .fail ⟨f, s.token.span⟩ s

/-- Notes a fault and goes on. -/
def noteAt (f : Fault) (span : Span) : Step Unit := fun _ s => .ok () { s with errors := ⟨f, span⟩ :: s.errors }

/-- What a message calls a token. -/
def describe (c : Context) (t : Token) : String :=
  match t.kind with
  | .eof => "<eof>"
  | _ => String.ofList (Text.between t.span.start t.span.stop c.source)

/-- Stops because one of several things was to come. -/
def unexpected {α : Type} (wanted : String) : Step α := fun c s => fail (.unexpected (describe c s.token) wanted) c s

/-- Stops because a certain token was to come. -/
def missing {α : Type} (wanted : String) : Step α := fun c s => fail (.expected wanted (describe c s.token)) c s

/-- A step if it succeeds, whatever faults it notes; otherwise nothing is read. -/
def attemptQuiet {α : Type} (p : Step (Option α)) : Step (Option α) := fun c s =>
  match p c s with
  | .ok (some a) s' => .ok (some a) { s' with errors := s.errors }
  | _ => .ok none s

/-- What a step would answer; nothing is read. -/
def lookAhead {α : Type} (p : Step α) : Step (Option α) := fun c s =>
  match p c s with
  | .ok a _ => .ok (some a) s
  | .fail _ _ => .ok none s

/-- Whether the current token is a certain piece of punctuation. -/
def atPunct (p : String) : Step Bool := fun _ s => .ok (s.token.kind == .punct p) s

/-- Whether the current token is a certain word. -/
def atWord (w : String) : Step Bool := fun _ s => .ok (s.token.kind == .word w false) s

/-- Whether the file ends here. -/
def atEof : Step Bool := fun _ s => .ok (s.token.kind == .eof) s

/-- The token after the current one. -/
def peek : Step Token := fun _ s => .ok s.next.token s

/-- Reads a piece of punctuation if it is there. -/
def eat (p : String) : Step Bool := fun _ s =>
  if s.token.kind == .punct p then .ok true s.next else .ok false s

/-- Reads a word if it is there. -/
def eatWord (w : String) : Step Bool := fun _ s =>
  if s.token.kind == .word w false then .ok true s.next else .ok false s

/-- Reads a piece of punctuation. -/
def punct (p : String) : Step Unit := fun c s =>
  if s.token.kind == .punct p then .ok () s.next else missing p c s

/-- Reads a word. -/
def keyword (w : String) : Step Unit := fun c s =>
  if s.token.kind == .word w false then .ok () s.next else missing w c s

/-- Splits the first character off the punctuation here, when it is `p`. -/
def splitPunct (p : Char) : Step Bool := fun _ s =>
  match s.token.kind with
  | .punct t =>
    match t.toList with
    | [] => .ok false s
    | c :: more =>
      if c == p then
        .ok true { s with token := { s.token with kind := .punct (String.ofList [c]),
                                                  span := ⟨s.token.span.start, s.token.span.start + 1⟩ }
                          rest := more ++ s.rest }
      else .ok false s
  | _ => .ok false s

/-- Reads one `>`, also of punctuation that begins with it. -/
def closeAngle : Step Unit := do
  if ← splitPunct '>' then advance else missing ">"

/-- Whether the statement may end here without a semicolon, or the semicolon is here. -/
def atStatementEnd : Step Bool := fun _ s =>
  .ok (s.token.newline || s.token.kind == .punct ";" || s.token.kind == .punct "\x7d" || s.token.kind == .eof) s

/-- Ends a statement if it may end here. -/
def eatSemicolon : Step Bool := fun _ s =>
  if s.token.kind == .punct ";" then .ok true s.next
  else if s.token.newline || s.token.kind == .punct "\x7d" || s.token.kind == .eof then .ok true s
  else .ok false s

/-- Ends a statement. -/
def semicolon : Step Unit := do
  if ← eatSemicolon then pure () else missing ";"

/-- Repeats a step until it has nothing more; `fuel` bounds the repetitions. -/
def repeatUpTo {α : Type} (p : Step (Option α)) : Nat → Step (List α)
  | 0 => pure []
  | fuel + 1 => do
    match ← p with
    | none => pure []
    | some a => do
      let as ← repeatUpTo p fuel
      pure (a :: as)

/-- Repeats a step until it has nothing more. A repetition takes a character at least, so the length of the text bounds them. -/
def many {α : Type} (p : Step (Option α)) : Step (List α) := fun c s => repeatUpTo p (s.rest.length + 2) c s

/-- Builds on what was read until there is nothing more; `fuel` bounds the steps. -/
def growUpTo {α : Type} (p : α → Step (Option α)) : Nat → α → Step α
  | 0, a => pure a
  | fuel + 1, a => do
    match ← p a with
    | none => pure a
    | some b => growUpTo p fuel b

/-- Builds on what was read until there is nothing more. -/
def grow {α : Type} (p : α → Step (Option α)) (a : α) : Step α := fun c s => growUpTo p (s.rest.length + 2) a c s

/-- Reads elements up to a closing piece of punctuation, with commas between them. -/
def listUntil {α : Type} (close : String) (p : Step α) : Step (List α) := do
  let first ← atPunct close
  if first then
    advance
    pure []
  else do
    let a ← p
    let as ← many do
      if ← atPunct close then pure none
      else do
        punct ","
        if ← atPunct close then pure none
        else do
          let a ← p
          pure (some a)
    punct close
    pure (a :: as)

end Step

/-- The words that are no names. -/
def reservedWords : List String :=
  ["await", "break", "case", "catch", "class", "const", "continue", "debugger", "default", "delete", "do", "else", "enum", "export",
    "extends", "false", "finally", "for", "function", "if", "import", "in", "instanceof", "let", "new", "null", "return", "super",
    "switch", "this", "throw", "true", "try", "typeof", "var", "void", "while", "with", "yield"]

/-- The words that may be bound as names, but stand for no value. -/
def guardedWords : List String := ["implements", "interface", "package", "private", "protected", "public"]

/-- Whether a token may be used as a name. -/
def Token.isName (t : Token) : Bool :=
  match t.kind with
  | .word w _ => !reservedWords.contains w
  | _ => false

/-- The word of a token. -/
def Token.word? (t : Token) : Option String :=
  match t.kind with
  | .word w _ => some w
  | _ => none

/-- A type: its place, and the values that stand in it. -/
structure TypeNode where
  span : Span
  parts : List Part
  deriving Inhabited

/-- The constructs that may stand inside any other. The grammar is built of steps that take these as given. -/
structure Grammar where
  /-- An expression without commas. -/
  assignment : Step Expr
  /-- An operand with the operators before and after it. -/
  unary : Step Expr
  type : Step TypeNode
  /-- A pattern that binds names, without a default. -/
  pattern : Step Pat
  /-- A statement, which may be a declaration. -/
  statement : Step Stmt
  /-- An element of markup, of which the opening `<` is current. -/
  element : Step Expr
  /-- An item of a module or a namespace: what stands in it. -/
  member : Step (List Part)
  deriving Inhabited

namespace Grammar

/-- The grammar of which nothing is left to try. -/
def spent : Grammar := default

end Grammar

end Script

end TypedSfc
