import TypedSfc.Generate.Piece
import TypedSfc.Span

/-!
# Edits

A script is copied with some of its ranges replaced by pieces. Edits are made in the order of their starts, those that start at one
place in the order in which they were stated; what no edit replaces is copied as it stands.
-/

namespace TypedSfc

namespace Generate

/-- The replacement of a range by pieces; at an empty range they are inserted. -/
structure Edit where
  span : Span
  pieces : List Piece
  deriving DecidableEq, Repr, Inhabited

namespace Edit

/-- Inserts pieces. -/
def insert (offset : Nat) (ps : List Piece) : Edit := ⟨Span.empty offset, ps⟩

/-- A range to be copied, if there is anything in it. -/
def gap (copy : Span → Piece) (start stop : Nat) : List Piece := if start < stop then [copy ⟨start, stop⟩] else []

/-- Copies from `start` on up to `stop`, with edits made on the way; `copy` writes a range as it stands. -/
def applyAll (copy : Span → Piece) (stop : Nat) : Nat → List Edit → List Piece
  | start, [] => gap copy start stop
  | start, e :: es => gap copy start e.span.start ++ e.pieces ++ applyAll copy stop (max start e.span.stop) es

/-- Copies a range with edits made in it. -/
def copyWith (copy : Span → Piece) (range : Span) (es : List Edit) : List Piece :=
  applyAll copy range.stop range.start (es.mergeSort fun a b => decide (a.span.start ≤ b.span.start))

end Edit

end Generate

end TypedSfc
