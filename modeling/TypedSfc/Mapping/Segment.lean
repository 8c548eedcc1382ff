import TypedSfc.Mapping.Policy

/-!
# Segments

A generator writes a stream of segments: text of its own, or text that stands for a place of a source. Sources are numbered: the
whole document first, then the template, the two scripts and the styles.
-/

namespace TypedSfc

/-- The number of a source. -/
abbrev SourceId := Nat

namespace SourceId

/-- The whole document. -/
def document : SourceId := 0

/-- The template block. -/
def template : SourceId := 1

/-- The plain script block. -/
def script : SourceId := 2

/-- The setup script block. -/
def scriptSetup : SourceId := 3

/-- The `index`-th style block. -/
def style (index : Nat) : SourceId := 4 + index

end SourceId

/-- A piece of generated text. -/
inductive Segment where
  /-- Text without a place in a source. -/
  | text (text : String)
  /-- Text that stands for the source text from `offset` on; offsets count from the start of the source. -/
  | mapped (text : String) (source : SourceId) (offset : Nat) (info : Info)
  deriving DecidableEq, Repr, Inhabited

namespace Segment

/-- A position of a source, written as no text. -/
def marker (source : SourceId) (offset : Nat) (info : Info) : Segment :=
  mapped "" source offset info

/-- The text a segment adds to the generated text. -/
def content : Segment → String
  | text t => t
  | mapped t _ _ _ => t

/-- The number of bytes a segment adds. -/
def size (s : Segment) : Nat := s.content.utf8ByteSize

/-- Whether a segment adds nothing. -/
def isEmpty (s : Segment) : Bool := s.content.isEmpty

/-- The segment with what it carries changed by `f`; text of its own has nothing to change. -/
def mapInfo (f : Info → Info) : Segment → Segment
  | text t => text t
  | mapped t s o i => mapped t s o (f i)

end Segment

/-- The text of a stream of segments. -/
def Segment.contents (ss : List Segment) : String :=
  ss.foldl (fun acc s => acc ++ s.content) ""

end TypedSfc
