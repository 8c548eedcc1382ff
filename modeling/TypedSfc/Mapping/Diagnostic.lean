import TypedSfc.Mapping.Table

/-!
# Diagnostics on the document

A diagnostic of the generated text is carried to the document by the entries around it, innermost first: the first whose policy
accepts its code decides its place, and a diagnostic that no entry accepts is dropped. What the expectation frames met is settled
over all diagnostics before any is decided, so the order of the report has no say.
-/

namespace TypedSfc

/-- What a checker says about a range of the generated text. -/
structure Diagnostic where
  code : Nat
  start : Nat
  stop : Nat
  message : String
  deriving DecidableEq, Repr, Inhabited

/-- What is said about a range of the document, and the source that range is in. -/
structure DocumentDiagnostic where
  code : Nat
  span : Span
  source : SourceId
  message : String
  deriving DecidableEq, Repr, Inhabited

/-- An entry around a diagnostic: where it puts the diagnostic, and how much generated text that takes. -/
structure Candidate where
  entry : Entry
  span : Span
  extent : Nat
  deriving DecidableEq, Repr, Inhabited

namespace SourceMap

/-- The entries around a generated range, innermost first, a later entry before an earlier one of the same extent. -/
def candidates (m : SourceMap) (start stop : Nat) : List Candidate :=
  (m.entries.reverse.filterMap fun e => (e.documentRange start stop).map fun r => ⟨e, r.1, r.2⟩).mergeSort
    fun a b => decide (a.extent ≤ b.extent)

/-- The frames that met a code on its way outward. -/
def framesMet (code : Nat) : List Candidate → List Nat
  | [] => []
  | c :: cs =>
    match c.entry.policy with
    | .expected frame codes => if codes.contains code then framesMet code cs else frame :: framesMet code cs
    | p => if p.accepts code then [] else framesMet code cs

/-- The markers within another expectation that a code passes on its way outward: each frame, and the one around it. -/
def markersMet (code : Nat) : List Candidate → List (Nat × Nat)
  | [] => []
  | c :: cs =>
    match c.entry.policy with
    | .unused frame (some outer) => (frame, outer) :: markersMet code cs
    | p => if p.accepts code then [] else markersMet code cs

/-- Lets an unmet marker count for the frame around it; the inner frames, which have larger numbers, come first. -/
def settle (met : List Nat) (markers : List (Nat × Nat)) : List Nat :=
  (markers.mergeSort fun a b => decide (b.1 ≤ a.1)).foldl (fun met m => if met.contains m.1 then met else m.2 :: met) met

/-- Whether an entry lets a code surface, given the frames that met an error. -/
def decides (met : List Nat) (code : Nat) (p : Policy) : Bool :=
  match p with
  | .unused frame none => !met.contains frame
  | p => p.accepts code

/-- The order of document diagnostics: by start, then by end. -/
def before (a b : DocumentDiagnostic) : Bool :=
  decide (a.span.start < b.span.start) || (a.span.start == b.span.start && decide (a.span.stop ≤ b.span.stop))

/-- Carries diagnostics to the document, in the order of the document. -/
def mapDiagnostics (m : SourceMap) (ds : List Diagnostic) : List DocumentDiagnostic :=
  let reach := ds.map fun d => (d, m.candidates d.start d.stop)
  let met := settle (reach.flatMap fun r => framesMet r.1.code r.2) (reach.flatMap fun r => markersMet r.1.code r.2)
  (reach.filterMap fun r => (r.2.find? fun c => decides met r.1.code c.entry.policy).map fun c =>
    ⟨r.1.code, c.span, c.entry.source, r.1.message⟩).mergeSort before

end SourceMap

end TypedSfc
