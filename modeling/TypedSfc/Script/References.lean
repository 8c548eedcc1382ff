import TypedSfc.Script.Bindings

/-!
# Free names

The names in a script that nothing in it binds. A scope knows the names that its head binds from its start, and those of declarations
from where they stand; the names of classes and enumerations do not count as bound.
-/

namespace TypedSfc

namespace Script

/-- A free name. -/
structure Reference where
  name : String
  offset : Nat
  /-- Whether it stands for a property and its value at once. -/
  shorthand : Bool
  deriving DecidableEq, Repr, Inhabited

/-- What a walk has seen: the names that are bound where it stands, and the free names before it, the latest first. -/
structure Seen where
  bound : List String := []
  free : List Reference := []
  deriving DecidableEq, Repr, Inhabited

namespace Seen

/-- A name is used. -/
def use (s : Seen) (i : Ident) (shorthand : Bool) : Seen :=
  if s.bound.contains i.name then s else { s with free := ⟨i.name, i.start, shorthand⟩ :: s.free }

/-- Names are bound from here on. -/
def bind (s : Seen) (names : List Bound) : Seen := { s with bound := names.map (·.id.name) ++ s.bound }

/-- What is bound in a scope is not bound after it. -/
def leave (outer inner : Seen) : Seen := { inner with bound := outer.bound }

end Seen

mutual

/-- The free names of an expression. -/
def Expr.seen (s : Seen) : Expr → Seen
  | .name i => s.use i false
  | .string _ | .bool _ _ => s
  | .array _ es => exprsSeen s es
  | .object _ ps => propertiesSeen s ps
  | .call _ e _ ps es => exprsSeen (partsSeen (e.seen s) ps) es
  | .spread _ e | .paren _ e => e.seen s
  | .member _ e ps | .cast _ e ps => partsSeen (e.seen s) ps
  | .assign _ p e => e.seen (p.seen s)
  | .arrow _ _ ps body => s.leave (partsSeen (patsSeen (s.bind (boundAll ps)) ps) body)
  | .other _ ps => partsSeen s ps

/-- The free names of expressions. -/
def exprsSeen (s : Seen) : List Expr → Seen
  | [] => s
  | e :: es => exprsSeen (e.seen s) es

/-- The free names of a property. -/
def Property.seen (s : Seen) : Property → Seen
  | .shorthand i => s.use i true
  | .covered _ e | .spread e => e.seen s
  | .pair _ ps e => e.seen (partsSeen s ps)
  | .other ps => partsSeen s ps

/-- The free names of properties. -/
def propertiesSeen (s : Seen) : List Property → Seen
  | [] => s
  | p :: ps => propertiesSeen (p.seen s) ps

/-- The free names in a pattern. A name that is assigned to is used; a name that is bound is not. -/
def Pat.seen (s : Seen) : Pat → Seen
  | .name _ _ ps => partsSeen s ps
  | .array _ es _ ps | .object _ es _ ps => partsSeen (patsSeen s es) ps
  | .keyed ps p => p.seen (partsSeen s ps)
  | .rest _ p _ ps => partsSeen (p.seen s) ps
  | .default _ p e => e.seen (p.seen s)
  | .target e => e.seen s

/-- The free names in patterns. -/
def patsSeen (s : Seen) : List Pat → Seen
  | [] => s
  | p :: ps => patsSeen (p.seen s) ps

/-- The free names of a statement. -/
def Stmt.seen (s : Seen) : Stmt → Seen
  | .expr _ e | .leave _ e => e.seen s
  | .funcDecl _ i ps => partsSeen (s.bind [⟨i, false⟩]) ps
  | .vars _ _ ps | .classDecl _ _ ps | .enumDecl _ _ ps | .namespaceDecl _ _ ps | .other _ ps => partsSeen s ps
  | .empty _ => s

/-- The free names of a part. -/
def Part.seen (s : Seen) : Part → Seen
  | .expr e => e.seen s
  | .pat p => p.seen s
  | .stmt t | .decl t => t.seen s
  | .declare _ p => p.seen (s.bind p.bound)
  | .define _ p e => e.seen (p.seen (s.bind p.bound))
  | .scope _ ps parts => s.leave (partsSeen (s.bind (boundAll ps)) parts)
  | .region _ _ parts => partsSeen s parts
  | .aside _ _ => s

/-- The free names of parts. -/
def partsSeen (s : Seen) : List Part → Seen
  | [] => s
  | p :: ps => partsSeen (p.seen s) ps

end

/-- The free names of an item. -/
def Item.seen (s : Seen) : Item → Seen
  | .stmt t => t.seen s
  | .exportValue _ e => e.seen s
  | .imports _ _ _ _ ps | .exportDefault _ _ _ ps | .exports _ ps | .other _ ps => partsSeen s ps
  | .importEquals .. => s

/-- The free names of a script, by their places. -/
def Module.free (m : Module) : List Reference :=
  ((m.items.getD []).foldl Item.seen {}).free.reverse.mergeSort fun a b => a.offset ≤ b.offset

/-- The free names of a typed script; none if it cannot be read. -/
def Reader.freeNames (reader : Reader) (code : String) : List Reference := (reader code "ts").free

end Script

end TypedSfc
