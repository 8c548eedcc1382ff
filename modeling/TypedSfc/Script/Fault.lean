import TypedSfc.Span

/-!
# Faults of a script

Some faults are noted and the reading goes on; one that cannot be passed ends it.
-/

namespace TypedSfc

namespace Script

/-- What is wrong at a place of a script. -/
inductive Fault where
  /-- No expression begins here. -/
  | noExpression
  /-- A declaration or an expression that is followed by something else. -/
  | noSemicolon
  /-- An expression statement that is followed by something else. -/
  | noStatementEnd
  /-- A certain token was to come. -/
  | expected (wanted found : String)
  /-- One of several things was to come. -/
  | unexpected (found wanted : String)
  | returnOutside
  | legacyComment
  | openString
  | openComment
  | openTemplate
  | openRegExp
  /-- An escape in a string that stands for no character. -/
  | badEscape
  /-- A character that begins no token. -/
  | badCharacter
  /-- A number that runs into a name, or has no digits. -/
  | badNumber
  /-- An assignment to what cannot be assigned to. -/
  | noTarget
  /-- An element whose closing tag is missing. -/
  | openElement (name : String)
  /-- A constant without a value. -/
  | noInitializer
  /-- A pattern without a value. -/
  | noDestructured
  /-- A construct that may not stand here. -/
  | misplaced (what : String)
  deriving DecidableEq, Repr, Inhabited

/-- The wording of a fault. -/
def Fault.message : Fault → String
  | noExpression => "Expression expected"
  | noSemicolon => "Expected a semicolon"
  | noStatementEnd => "Expected ';', '\x7d' or <eof>"
  | expected w f => s!"Expected '{w}', got '{f}'"
  | unexpected f w => "Unexpected token \x60" ++ f ++ "\x60. Expected " ++ w
  | returnOutside => "Return statement is not allowed here"
  | legacyComment => "Legacy comments cannot be used in module code"
  | openString => "Unterminated string constant"
  | openComment => "Unterminated block comment"
  | openTemplate => "Unterminated template"
  | openRegExp => "Unterminated regexp literal"
  | badEscape => "Bad character escape sequence"
  | badCharacter => "Invalid character"
  | badNumber => "Invalid number"
  | noTarget => "The left-hand side of an assignment expression must be a variable or a property access."
  | openElement n => s!"Expected corresponding JSX closing tag for <{n}>"
  | noInitializer => "'const' declarations must be initialized"
  | noDestructured => "Destructuring bindings require initializers"
  | misplaced w => s!"{w} is not allowed here"

/-- A fault and its place. -/
structure Error where
  fault : Fault
  span : Span
  deriving DecidableEq, Repr, Inhabited

/-- A comment without its marks, and its place with them. -/
structure Comment where
  isBlock : Bool
  text : String
  span : Span
  deriving DecidableEq, Repr, Inhabited

end Script

end TypedSfc
