/-!
# Defects of a segment stream

These are faults of a generator, never of the document it reads.
-/

namespace TypedSfc

/-- Why a stream of segments has no map. -/
inductive MappingError where
  /-- A group was still open at the end. -/
  | unterminatedGroup (token : Nat)
  /-- A segment joins or closes a group that is not open. -/
  | unopenedGroup (token : Nat)
  /-- A segment opens a group for the second time. -/
  | reopenedGroup (token : Nat)
  /-- A segment names a source that is not in the table. -/
  | unknownSource (source : Nat)
  /-- Generated offsets go backward, or past the end of the text. -/
  | outOfOrder (offset : Nat)
  deriving DecidableEq, Repr, Inhabited

/-- The wording of a defect. -/
def MappingError.message : MappingError → String
  | unterminatedGroup t => s!"combine group {t} was never closed"
  | unopenedGroup t => s!"combine group {t} was not opened before use"
  | reopenedGroup t => s!"combine group {t} was opened twice"
  | unknownSource s => s!"segment references unknown source {s}"
  | outOfOrder o => s!"generated offset {o} is out of order"

end TypedSfc
