import TypedSfc.Script.Bindings

/-!
# Calls

The calls of named functions in a script, outside the bodies of functions, in the order of a visit that sees a call before what stands
in it. Each comes with the statement around it and with what holds it directly.
-/

namespace TypedSfc

namespace Script

/-- What holds a call directly. -/
inductive Holder where
  | nothing
  /-- A variable whose value the call is. -/
  | name (id : Ident)
  /-- An object pattern whose value the call is, by the names that it binds. -/
  | pattern (names : List Bound)
  /-- A call of which this one is the first argument, and the variable whose value that call is. -/
  | argument (callee : String) (id : Option Ident)
  deriving DecidableEq, Repr, Inhabited

/-- The variable that holds a call. -/
def Holder.name? : Holder → Option Ident
  | name i => some i
  | _ => none

/-- A call of a named function. -/
structure Call where
  callee : Ident
  span : Span
  typeArgs : List Span
  args : List Expr
  holder : Holder
  /-- The innermost statement around the call, without the semicolon at its end. -/
  statement : Option Span

/-- The place of a variable with its value. -/
def Part.declarator? : Part → Option Span
  | .declare d _ | .define d _ _ => some d
  | _ => none

/-- The place of a statement without the semicolon at its end, which a declaration with `using` keeps. -/
def Stmt.bareSpan : Stmt → Span
  | .expr s e | .leave s e => ⟨s.start, e.span.stop⟩
  | .vars s kind ds => ⟨s.start, match kind, ds.getLast? with
    | .disposed, _ | _, none => s.stop
    | _, some d => (d.declarator?.getD s).stop⟩
  | s => s.span

/-- What holds a value that is defined for a pattern. -/
def Holder.ofPat : Pat → Holder
  | .name i _ _ => .name i
  | p@(.object ..) => .pattern p.bound
  | _ => .nothing

/-- Whether an expression is a call. -/
def Expr.isCall : Expr → Bool
  | .call .. => true
  | _ => false

/-- What holds the first argument of a call. -/
def Holder.ofCall (callee : Expr) (outer : Holder) : Holder :=
  match callee with
  | .name i => .argument i.name outer.name?
  | _ => .nothing

mutual

/-- The calls in an expression that stands in a statement; what holds the expression counts if it is a call. -/
def Expr.calls (st : Option Span) (h : Holder) : Expr → List Call
  | .name _ | .string _ | .bool _ _ | .arrow .. => []
  | .array _ es => exprCalls st .nothing es
  | .object _ ps => propertyCalls st ps
  | .call span callee typeArgs types args =>
    (match callee with
      | .name i => [⟨i, span, typeArgs, args, h, st⟩]
      | _ => []) ++ callee.calls st .nothing ++ partCalls st types ++ exprCalls st (Holder.ofCall callee h) args
  | .spread _ e => e.calls st (if e.isCall then h else .nothing)
  | .member _ e ps => e.calls st .nothing ++ partCalls st ps
  | .paren _ e => e.calls st .nothing
  | .cast _ e ps => e.calls st .nothing ++ partCalls st ps
  | .assign _ p e => p.calls st ++ e.calls st .nothing
  | .other _ ps => partCalls st ps

/-- The calls in some expressions; the first may be held by something. -/
def exprCalls (st : Option Span) (h : Holder) : List Expr → List Call
  | [] => []
  | e :: es => e.calls st h ++ exprCalls st .nothing es

/-- The calls in a property. -/
def Property.calls (st : Option Span) : Property → List Call
  | .shorthand _ => []
  | .covered _ e | .spread e => e.calls st .nothing
  | .pair _ ps e => partCalls st ps ++ e.calls st .nothing
  | .other ps => partCalls st ps

/-- The calls in some properties. -/
def propertyCalls (st : Option Span) : List Property → List Call
  | [] => []
  | p :: ps => p.calls st ++ propertyCalls st ps

/-- The calls in a pattern. -/
def Pat.calls (st : Option Span) : Pat → List Call
  | .name _ _ ps => partCalls st ps
  | .array _ es _ ps | .object _ es _ ps => patCalls st es ++ partCalls st ps
  | .keyed ps p => partCalls st ps ++ p.calls st
  | .rest _ p _ ps => p.calls st ++ partCalls st ps
  | .default _ p e => p.calls st ++ e.calls st .nothing
  | .target e => e.calls st .nothing

/-- The calls in some patterns. -/
def patCalls (st : Option Span) : List Pat → List Call
  | [] => []
  | p :: ps => p.calls st ++ patCalls st ps

/-- The calls in the parts of a statement, which `st` is or stands in. -/
def Stmt.calls (st : Option Span) : Stmt → List Call
  | .expr _ e | .leave _ e => e.calls st .nothing
  | .vars _ _ ps | .funcDecl _ _ ps | .classDecl _ _ ps | .enumDecl _ _ ps | .namespaceDecl _ _ ps | .other _ ps => partCalls st ps
  | .empty _ => []

/-- The calls in a part. -/
def Part.calls (st : Option Span) : Part → List Call
  | .expr e => e.calls st .nothing
  | .pat p | .declare _ p => p.calls st
  | .stmt s => s.calls (some s.bareSpan)
  | .decl s => s.calls st
  | .define _ p e => p.calls st ++ e.calls st (if e.isCall then Holder.ofPat p else .nothing)
  | .scope .function _ _ => []
  | .scope .body ps parts | .scope .block ps parts => patCalls st ps ++ partCalls st parts
  | .region _ _ ps => partCalls st ps
  | .aside isSearched ps => if isSearched then partCalls st ps else []

/-- The calls in some parts. -/
def partCalls (st : Option Span) : List Part → List Call
  | [] => []
  | p :: ps => p.calls st ++ partCalls st ps

end

/-- The calls in an item. -/
def Item.calls : Item → List Call
  | .stmt s => s.calls (some s.bareSpan)
  | .exportValue _ e => e.calls none .nothing
  | .imports _ _ _ _ ps | .exportDefault _ _ _ ps | .exports _ ps | .other _ ps => partCalls none ps
  | .importEquals .. => []

/-- The calls in a script. -/
def Module.calls (m : Module) : List Call := (m.items.getD []).flatMap Item.calls

end Script

end TypedSfc
