import TypedSfc.Generate.Node
import TypedSfc.Proofs.Generate.BalancedEntries
import TypedSfc.Proofs.Generate.Shown
import TypedSfc.Proofs.Mapping.Build

/-!
# Conditions as guards

A condition of a chain is written, and its text becomes a guard for what stands in its branch. Behind the branch the guard is turned into
its negation, which holds in the branches behind. The text is that of the condition as it is resolved in the scopes around the chain,
under whichever effect it is written.
-/

namespace TypedSfc

namespace Generate

open Markup (Branch)
open Script (Reference)

/-! ## The text of a condition -/

section

variable {r : Setting}

/-- What is written does not hang on the effect in force, which changes policies only. -/
theorem map_content_pieceSegments (p : Placement) (e : Option Effect) (t : List Char) (pos : Nat) (atEnd : Bool) :
    (pieceSegments (p.under e) t pos atEnd).map Segment.content = (pieceSegments p t pos atEnd).map Segment.content := by
  have hhead : (p.under e).headEnd pos (Text.size t) = p.headEnd pos (Text.size t) := rfl
  have hinner : (p.under e).innerEnd pos (Text.size t) = p.innerEnd pos (Text.size t) := rfl
  unfold pieceSegments
  rw [hhead, hinner]
  dsimp only
  split
  · simp only [List.map_append, List.map_cons, Segment.content]
  · rfl

theorem map_content_nameStrands (p : Placement) (e : Option Effect) (whole : List Char) (prev : Nat) (n : Reference) :
    ((nameStrands r (p.under e) whole prev n).map Strand.segment).map Segment.content =
      ((nameStrands r p whole prev n).map Strand.segment).map Segment.content := by
  have huse : (useSegments r (p.under e) n).map Segment.content = (useSegments r p n).map Segment.content := by
    unfold useSegments
    split
    · rw [List.map_append, List.map_append, map_content_pieceSegments]
    · simp only [List.map_append, map_content_pieceSegments]
  rw [segment_nameStrands, segment_nameStrands]
  split
  · simp only [List.map_append, map_content_pieceSegments, huse]
  · rw [List.map_append, List.map_append, map_content_pieceSegments, huse]

theorem map_content_strands (p : Placement) (e : Option Effect) (whole : List Char) (prev : Nat) (ns : List Reference) :
    ((strands r (p.under e) whole prev ns).map Strand.segment).map Segment.content =
      ((strands r p whole prev ns).map Strand.segment).map Segment.content := by
  induction ns generalizing prev with
  | nil =>
    unfold strands
    split
    · rw [segment_map_kept, segment_map_kept, map_content_pieceSegments]
    · rfl
  | cons n ns ih =>
    rw [strands, strands, List.map_append, List.map_append, List.map_append, List.map_append, map_content_nameStrands, ih]

/-- The text of a condition in some scopes, as the guards hold it. -/
def conditionText (r : Setting) (scopes : List (List String)) (x : Markup.Expression) : String :=
  Segment.contents (expressionSegments r none scopes SourceId.template x.content x.offset Info.checked "(" ")")

/-- The text of a condition is the same under any effect. -/
theorem contents_condition (e : Option Effect) (scopes : List (List String)) (x : Markup.Expression) :
    Segment.contents (expressionSegments r e scopes SourceId.template x.content x.offset Info.checked "(" ")") =
      conditionText r scopes x := by
  unfold conditionText expressionSegments
  rw [contents_eq_join, contents_eq_join, map_content_strands, map_content_strands]

/-- The guards that some branches leave to those behind them: none of their conditions holds. -/
def negations (r : Setting) (scopes : List (List String)) (bs : List Branch) : List String :=
  (bs.filterMap Branch.condition).map fun x => "!" ++ conditionText r scopes x

/-! ## Guards -/

/-- What a condition comes to: its text is written and becomes the last guard, and the stacks are left as they were otherwise. -/
theorem balanced_condition (x : Markup.Expression) (s : State) :
    State.Balanced { s with guards := s.guards ++ [conditionText r s.scopes x] } ((condition x).after r s).2 ∧
      ((condition x).after r s).2.code.toText = s.code.toText ++ (conditionText r s.scopes x ++ " ") := by
  let inner := ((expression x.content x.offset "(" ")").after r { s with code := s.code.continueFrom }).2
  have hbalanced : State.Balanced { s with code := s.code.continueFrom } inner := balances_expression _ _ _ _ r _
  obtain ⟨hsegments, -, -⟩ := writes_expressionIn (r := r) s.code.effect s.scopes SourceId.template x.content x.offset Info.checked "(" ")"
    { s with code := s.code.continueFrom } rfl rfl
  have hwritten : inner.code.toText = conditionText r s.scopes x := by
    have htext : inner.code.toText = Segment.contents _ := congrArg Segment.contents (hsegments.trans (List.nil_append _))
    rw [htext, contents_condition]
  have hafter : ((condition x).after r s).2 = { inner with
      code := ((s.code.absorbTokens inner.code).append inner.code).text " ", guards := inner.guards ++ [inner.code.toText] } := rfl
  rw [hafter, hwritten]
  refine ⟨⟨hbalanced.frames_eq, ?_, hbalanced.inLoop_eq, fun heffect => ?_, hbalanced.temporary_le, hbalanced.expectation_le⟩, ?_⟩
  · exact congrArg (· ++ [conditionText r s.scopes x]) hbalanced.guards_eq
  · exact (Code.effect_text _ _).trans (heffect.trans (congrArg effectOf hbalanced.frames_eq.symm))
  · show (((s.code.absorbTokens inner.code).append inner.code).text " ").toText = _
    rw [Code.toText_text, Code.toText_append, String.append_assoc, hwritten]
    rfl

theorem negateLast_concat (gs : List String) (g : String) : negateLast (gs ++ [g]) = gs ++ ["!" ++ g] := by
  induction gs with
  | nil => rfl
  | cons h gs ih =>
    cases gs with
    | nil => rfl
    | cons h' gs => exact congrArg (h :: ·) ih

end

end Generate

end TypedSfc
