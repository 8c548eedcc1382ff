import TypedSfc.Text.Bytes

/-!
# Spans

A span is a half-open range of byte positions of a document, a block or the generated text.

Positions and sizes are natural numbers without a bound. The library is about texts whose sizes fit 32 bits, and so do the sizes of what
is generated from them: there no sum of positions overflows, and a difference that would be negative is not taken.
-/

namespace TypedSfc

/-- The positions from `start` up to, and without, `stop`. -/
structure Span where
  start : Nat
  stop : Nat
  deriving DecidableEq, Repr, Inhabited

namespace Span

/-- The span of no byte at `offset`. -/
def empty (offset : Nat) : Span := ⟨offset, offset⟩

/-- The number of bytes of a span. -/
def length (s : Span) : Nat := s.stop - s.start

/-- Whether a span has no byte. -/
def isEmpty (s : Span) : Bool := s.start == s.stop

/-- Whether a position lies in a span; its end does not. -/
def contains (s : Span) (offset : Nat) : Bool :=
  decide (s.start ≤ offset) && decide (offset < s.stop)

/-- Whether a span lies within another. -/
def encloses (s t : Span) : Bool :=
  decide (s.start ≤ t.start) && decide (t.stop ≤ s.stop)

/-- The smallest span around two. -/
def cover (s t : Span) : Span :=
  ⟨min s.start t.start, max s.stop t.stop⟩

/-- A span moved forward, as from a block to its document. -/
def shift (s : Span) (delta : Nat) : Span :=
  ⟨s.start + delta, s.stop + delta⟩

/-- The text at a span, when both of its ends are positions of the text. -/
def slice (s : Span) (text : String) : Option String :=
  (Text.slice s.start s.stop text.toList).map String.ofList

end Span

end TypedSfc
