import TypedSfc.Generate.Code
import TypedSfc.Generate.HelperType
import TypedSfc.Generate.Names
import TypedSfc.Span

/-!
# Pieces

The code around a template is a list of pieces: text of its own, parts of the scripts, and the code of the template itself. Writing the
pieces one after another makes the code, and collects the types that it declares and the helper types that it needs.
-/

namespace TypedSfc

namespace Generate

/-- A piece of the code around a template. -/
inductive Piece where
  /-- Text without a place in a source. -/
  | text (t : String)
  /-- Source text, checked as it stands. -/
  | mapped (t : String) (source : SourceId) (offset : Nat)
  /-- A part of a script; an empty one is left out. -/
  | copied (t : String) (source : SourceId) (offset : Nat)
  /-- Text that stands for a range of a source. -/
  | bounded (t : String) (source : SourceId) (span : Span) (info : Info)
  /-- A string that stands, with its quotes, for a range of a source. -/
  | quoted (t : String) (source : SourceId) (span : Span)
  /-- Values that are merged into one. -/
  | merged (operands : List String)
  /-- The end of a line that is not empty. -/
  | freshLine
  /-- The code of the template and the styles. -/
  | template
  /-- Says that a type is declared. -/
  | declares (type : String)
  /-- Says that a helper type is needed. -/
  | needs (type : HelperType)
  deriving DecidableEq, Repr, Inhabited

/-- What pieces make. -/
structure Written where
  code : Code
  /-- The types that are declared. -/
  types : List String := []
  /-- The helper types that are needed. -/
  helpers : List HelperType := []
  deriving Inhabited

/-- A list with an element at its end, unless it is there. -/
def addNew {α : Type} [DecidableEq α] (a : α) (as : List α) : List α := if a ∈ as then as else as ++ [a]

theorem mem_addNew_iff {α : Type} [DecidableEq α] {a b : α} {as : List α} : b ∈ addNew a as ↔ b = a ∨ b ∈ as := by
  unfold addNew
  split
  · rename_i ha
    exact ⟨.inr, fun h => h.elim (fun heq => heq ▸ ha) id⟩
  · rw [List.mem_append, List.mem_singleton, or_comm]

/-- Changes the code. -/
def Written.onCode (w : Written) (f : Code → Code) : Written := { w with code := f w.code }

/-- Writes a string that stands, with its quotes, for a range of a source. -/
def writeQuoted (t : String) (source : SourceId) (span : Span) (c : Code) : Code :=
  let (b, c) := c.opened source span.start Info.checked
  (((c.text "\"").joined b t span.start).text "\"").closed b span.stop

/-- Writes a piece; `inner` is the code of the template and the styles. -/
def Piece.write (inner : Code) (w : Written) : Piece → Written
  | .text t => w.onCode (·.text t)
  | .mapped t source offset => w.onCode (·.mapped t source offset Info.checked)
  | .copied t source offset => if t.isEmpty then w else w.onCode (·.mapped t source offset Info.checked)
  | .bounded t source span info => w.onCode (·.bounded source span.start span.stop info t)
  | .quoted t source span => w.onCode (writeQuoted t source span)
  | .merged operands => w.onCode (·.spreadMerge operands)
  | .freshLine => w.onCode fun c => if c.atLineStart then c else c.text "\n"
  | .template => w.onCode (·.append inner)
  | .declares type => { w with types := addNew type w.types }
  | .needs type => { w with helpers := type.use w.helpers }

/-- Writes pieces into a buffer whose group tokens come after those of the inner code. -/
def Written.ofPieces (inner : Code) (ps : List Piece) : Written :=
  ps.foldl (Piece.write inner) { code := inner.continueFrom }

end Generate

end TypedSfc
