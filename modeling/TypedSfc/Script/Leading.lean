import TypedSfc.Script.Module
import TypedSfc.Text.Space

/-!
# Leading comments

A comment belongs to what follows it when nothing but white space and other comments stands between.
-/

namespace TypedSfc

namespace Script

/-- Comments from the last to the first, as far as only white space stands between each and what follows it. -/
def adjacent (content : List Char) : Nat → List Comment → List Comment
  | _, [] => []
  | target, c :: cs =>
    if Text.isBlank (Text.between c.span.stop target content) then c :: adjacent content c.span.start cs else []

/-- The comments directly before a position, by their places. -/
def Module.leading (m : Module) (content : String) (start : Nat) : List Comment :=
  (adjacent content.toList start (m.comments.filter fun c => decide (c.span.stop ≤ start)).reverse).reverse

/-- The block comment among the leading ones that is closest to a position. -/
def Module.closestBlock (m : Module) (content : String) (start : Nat) : Option Span :=
  ((m.leading content start).reverse.find? (·.isBlock)).map (·.span)

end Script

end TypedSfc
