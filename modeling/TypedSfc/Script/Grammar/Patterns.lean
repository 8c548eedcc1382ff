import TypedSfc.Script.Grammar.Types

/-!
# Patterns

A pattern that binds names is read as such. A pattern that is assigned to is read as an expression first and turned into a pattern at
the equals sign.
-/

namespace TypedSfc

namespace Script

namespace Grammar

open Step

/-- Reads elements between brackets or braces where an element may be left out. -/
def sparseList {α : Type} (close : String) (p : Step α) : Step (List α) := do
  let es ← many do
    if ← atPunct close then pure none
    else if ← eat "," then pure (some [])
    else do
      let e ← p
      if ← atPunct close then pure (some [e])
      else do
        punct ","
        pure (some [e])
  punct close
  pure es.flatten

/-- Reads a pattern with its default. -/
def elementPattern (g : Grammar) : Step Pat := do
  let pos ← start
  let p ← g.pattern
  if ← eat "=" then
    let e ← within (fun c => { c with inOperator := true, colonEnds := false }) g.assignment
    let span ← spanFrom pos
    pure (.default span p e)
  else pure p

/-- Reads what stands in an object pattern. -/
def propertyPattern (g : Grammar) : Step Pat := do
  let pos ← start
  if ← eat "..." then
    let p ← g.pattern
    let span ← spanFrom pos
    pure (.rest span p none [])
  else
    let (name, key) ← propertyKey g
    if ← eat ":" then
      let p ← elementPattern g
      pure (.keyed key p)
    else
      match name with
      | none => unexpected "an identifier"
      | some w => do
        let p := Pat.name ⟨w, pos⟩ none []
        if ← eat "=" then
          let e ← within (fun c => { c with inOperator := true, colonEnds := false }) g.assignment
          let span ← spanFrom pos
          pure (.default span p e)
        else pure p

/-- Reads a pattern that binds names. -/
def patternOf (g : Grammar) : Step Pat := do
  let pos ← start
  let t ← token
  match t.kind with
  | .word w _ =>
    if reservedWords.contains w then unexpected "yield, an identifier, [ or \x7b"
    else do
      advance
      pure (.name ⟨w, pos⟩ none [])
  | .punct "[" => do
    advance
    let es ← sparseList "]" (do
      let pos ← start
      if ← eat "..." then do
        let p ← g.pattern
        let span ← spanFrom pos
        pure (Pat.rest span p none [])
      else elementPattern g)
    let span ← spanFrom pos
    pure (.array span es none [])
  | .punct "\x7b" => do
    advance
    let ps ← listUntil "\x7d" (propertyPattern g)
    let span ← spanFrom pos
    pure (.object span ps none [])
  | _ => unexpected "yield, an identifier, [ or \x7b"

mutual

/-- An expression as a pattern within a pattern that is assigned to. -/
def inner : Expr → Pat
  | .name i => .name i none []
  | .array s es => .array s (innerAll es) none []
  | .object s ps => .object s (innerProps ps) none []
  | .assign s p e => .default s (match p with
    | .target (.name i) => .name i none []
    | p => p) e
  | .spread s e => .rest s (inner e) none []
  | e => .target e

/-- Expressions as patterns. -/
def innerAll : List Expr → List Pat
  | [] => []
  | e :: es => inner e :: innerAll es

/-- The properties of an object as patterns. -/
def innerProps : List Property → List Pat
  | [] => []
  | p :: ps => innerProp p :: innerProps ps

/-- A property as a pattern. -/
def innerProp : Property → Pat
  | .shorthand i => .name i none []
  | .covered i e => .default i.range (.name i none []) e
  | .pair _ key e => .keyed key (inner e)
  | .spread e => .rest e.span (inner e) none []
  | .other _ => .target default

end

mutual

/-- An expression as a pattern that binds names. What has no such form binds nothing, and nothing in it is looked at. -/
def binding : Expr → Pat
  | .name i => .name i none []
  | .array s es => .array s (bindingAll es) none []
  | .object s ps => .object s (bindingProps ps) none []
  | .assign s p e => .default s (match p with
    | .target (.name i) => .name i none []
    | p => p) e
  | .spread s e => .rest s (binding e) none []
  | e => .target (.other e.span [])

/-- Expressions as patterns that bind names. -/
def bindingAll : List Expr → List Pat
  | [] => []
  | e :: es => binding e :: bindingAll es

/-- The properties of an object as patterns that bind names. -/
def bindingProps : List Property → List Pat
  | [] => []
  | p :: ps => bindingProp p :: bindingProps ps

/-- A property as a pattern that binds names. -/
def bindingProp : Property → Pat
  | .shorthand i => .name i none []
  | .covered i e => .default i.range (.name i none []) e
  | .pair _ key e => .keyed key (binding e)
  | .spread e => .rest e.span (binding e) none []
  | .other _ => .target default

end

/-- Whether a pattern takes the rest. -/
def isRest : Pat → Bool
  | .rest .. => true
  | _ => false

/-- The parameters of an arrow function: of those that take the rest only the last one counts, and only at the end. -/
def withoutEarlyRests : List Pat → List Pat
  | [] => []
  | [p] => [p]
  | p :: ps => if isRest p then withoutEarlyRests ps else p :: withoutEarlyRests ps

/-- An expression as the place that an assignment writes to. -/
def assignable : Expr → Pat
  | .array s es => .array s (innerAll es) none []
  | .object s ps => .object s (innerProps ps) none []
  | e => .target e

end Grammar

end Script

end TypedSfc
