/-!
# Policies

A piece of generated text that stands for source text carries a policy, which says which diagnostic codes may surface there, and
possibly its role in a group of pieces that are mapped together.
-/

namespace TypedSfc

/-- Which diagnostics may surface at a place of the generated text. -/
inductive Policy where
  /-- Mapped for navigation only. -/
  | never
  /-- Every diagnostic surfaces. -/
  | always
  /-- Every diagnostic surfaces but those with one of the codes. -/
  | allBut (codes : List Nat)
  /-- Within the expectation `frame`: nothing surfaces, and a code that `allBut codes` accepts counts as an error the frame
  expected. -/
  | expected (frame : Nat) (codes : List Nat)
  /-- The marker of the expectation `frame` itself: it surfaces when the frame met no error. Within another expectation, an
  unmet marker counts as an error that one expected. -/
  | unused (frame : Nat) (outer : Option Nat)
  deriving DecidableEq, Repr, Inhabited

namespace Policy

/-- Whether a policy may ever matter to a diagnostic. -/
def isEnabled : Policy → Bool
  | never => false
  | _ => true

/-- Whether a code surfaces, as far as that does not hang on what the expectation frames met. -/
def accepts (code : Nat) : Policy → Bool
  | always => true
  | allBut codes => !codes.contains code
  | never | expected _ _ | unused _ _ => false

end Policy

/-- The role of a piece in a group of pieces that become one entry of the map, each group named by a token. -/
inductive Role where
  /-- The first piece; its policy is the policy of the entry. -/
  | opens (token : Nat)
  /-- An inner piece. -/
  | joins (token : Nat)
  /-- The last piece. -/
  | closes (token : Nat)
  deriving DecidableEq, Repr, Inhabited

/-- The token of the group of a piece. -/
def Role.token : Role → Nat
  | opens t | joins t | closes t => t

/-- What a mapped piece carries besides its place: a policy, and its role in a group if it is in one. -/
structure Info where
  policy : Policy := .never
  role : Option Role := none
  deriving DecidableEq, Repr, Inhabited

namespace Info

/-- A policy outside any group. -/
def ofPolicy (p : Policy) : Info := ⟨p, none⟩

/-- The same policy in a group. -/
def withRole (i : Info) (r : Role) : Info := ⟨i.policy, some r⟩

/-- Mapped for navigation only. -/
def silent : Info := ofPolicy .never

/-- Every diagnostic surfaces. -/
def checked : Info := ofPolicy .always

/-- Access to an unknown property (2339, 2551) is let pass. -/
def anyProperty : Info := ofPolicy (.allBut [2339, 2551])

/-- A property too many in an object literal (2353, 2561) is let pass. -/
def extraProperty : Info := ofPolicy (.allBut [2353, 2561])

/-- A declaration without use (6133) is let pass. -/
def unusedName : Info := ofPolicy (.allBut [6133])

/-- The policy of a property access, by strictness. -/
def propertyAccess (strict : Bool) : Info := if strict then checked else anyProperty

/-- The policy of a property of an object literal, by strictness. -/
def propertyOf (strict : Bool) : Info := if strict then checked else extraProperty

end Info

end TypedSfc
