import TypedSfc.Span
import TypedSfc.Mapping.Error
import TypedSfc.Mapping.Segment

/-!
# Source maps

An entry of a map ties ranges of the generated text to ranges of the document that have the same length: one range for a segment
that stands alone, one per segment for a group. A lookup answers with the innermost entry around a generated range, that is the one
of the smallest extent, the later of two that tie.
-/

namespace TypedSfc

/-- `length` bytes at `source` in the document, and at `generated` in the generated text. -/
structure Link where
  source : Nat
  generated : Nat
  length : Nat
  deriving DecidableEq, Repr, Inhabited

namespace Link

/-- Whether a generated position is in the link; its end is. -/
def meets (l : Link) (pos : Nat) : Bool :=
  decide (l.generated ≤ pos) && decide (pos ≤ l.generated + l.length)

/-- The document position of a generated position of the link. -/
def documentPosition (l : Link) (pos : Nat) : Nat :=
  l.source + (pos - l.generated)

end Link

/-- What one segment, or one group of segments, says about the map. -/
structure Entry where
  source : SourceId
  links : List Link
  policy : Policy
  deriving DecidableEq, Repr, Inhabited

namespace Entry

/-- Where the entry begins in the generated text. -/
def generatedStart (e : Entry) : Nat :=
  (e.links.head?.map Link.generated).getD 0

/-- The smallest generated range around all links of an entry. -/
def generatedSpan (e : Entry) : Span :=
  ⟨e.generatedStart, match e.links with
    | [] => e.generatedStart
    | l :: ls => ls.foldl (fun m k => max m (k.generated + k.length)) (l.generated + l.length)⟩

/-- The document range of the generated range from `start` to `stop`, when each end is in a link of the entry, with the extent of
generated text between those links. -/
def documentRange (e : Entry) (start stop : Nat) : Option (Span × Nat) :=
  e.links.findSome? fun a =>
    if a.meets start then
      e.links.findSome? fun b =>
        if b.meets stop && decide (a.documentPosition start ≤ b.documentPosition stop) then
          some (⟨a.documentPosition start, b.documentPosition stop⟩, b.generated + b.length - a.generated)
        else
          none
    else
      none

end Entry

/-- The map of a generated text: its entries, each in the place of its first segment. -/
structure SourceMap where
  entries : List Entry
  deriving DecidableEq, Repr, Inhabited

namespace SourceMap

/-- The map of no text. -/
def empty : SourceMap := ⟨[]⟩

/-- The innermost of two answers for a range, of which the second is of a later entry. -/
def innermost (best next : Option (Span × Nat)) : Option (Span × Nat) :=
  match best, next with
  | some b, some n => if n.2 ≤ b.2 then some n else some b
  | some b, none => some b
  | none, n => n

/-- The document range of a generated range, by the innermost entry around it and whatever its policy. -/
def documentRange (m : SourceMap) (start stop : Nat) : Option Span :=
  (m.entries.foldl (fun best e => innermost best (e.documentRange start stop)) none).map (·.1)

/-- The generated position of a document position, by the first link around it. -/
def generatedPosition (m : SourceMap) (pos : Nat) : Option Nat :=
  ((m.entries.flatMap Entry.links).find? fun l => decide (l.source ≤ pos) && decide (pos ≤ l.source + l.length)).map
    fun l => l.generated + (pos - l.source)

/-- Checks that the links of an entry do not go backward from `previous` and end within `size` bytes. -/
def verifyLinks (size previous : Nat) : List Link → Except MappingError Unit
  | [] => .ok ()
  | l :: ls =>
    if l.generated < previous ∨ size < l.generated + l.length then .error (.outOfOrder l.generated)
    else verifyLinks size l.generated ls

/-- Checks entries that come after an entry which begins at `previous`. -/
def verifyEntries (size previous : Nat) : List Entry → Except MappingError Unit
  | [] => .ok ()
  | e :: es =>
    let first := (e.links.head?.map Link.generated).getD previous
    if first < previous then .error (.outOfOrder first)
    else
      match verifyLinks size first e.links with
      | .ok () => verifyEntries size first es
      | .error err => .error err

/-- Checks a map against a generated text of `size` bytes: entries and the links of each go forward, and none ends past the text. -/
def verify (m : SourceMap) (size : Nat) : Except MappingError Unit :=
  verifyEntries size 0 m.entries

end SourceMap

end TypedSfc
