import TypedSfc.Markup.Template
import TypedSfc.Proofs.Markup.Folds
import TypedSfc.Proofs.Markup.Nodes

/-!
# A template tree describes its source

The raw nodes of a template describe its source one behind another from its start, and folding keeps that. Reading ends at the end of
the file, and not for want of steps.
-/

namespace TypedSfc

namespace Markup

/-- Reading the source ends: all of it is read, and bounds on the steps that are more than its bytes make no difference, neither for
its nodes nor for the attributes of a tag, wherever in the source that is. -/
structure Reader.Terminates (source : String) : Prop where
  kind_eq : (nodes ((Reader.new source).size + 1) [] (Reader.new source)).2.kind = .eof
  nodes_eq : ∀ fuel, (Reader.new source).size < fuel →
    nodes fuel [] (Reader.new source) = nodes ((Reader.new source).size + 1) [] (Reader.new source)
  attributes_ends : ∀ (r : Reader) (pos : Nat), r.Stands source.toList pos → endsAttributes (attributes (r.size + 1) r).2.kind = true
  attributes_eq : ∀ (r : Reader) (pos : Nat), r.Stands source.toList pos → ∀ fuel, r.size < pos + fuel →
    attributes fuel r = attributes (r.size + 1) r

theorem Reader.terminates (source : String) : Reader.Terminates source := by
  have hnew := Reader.Stands.new source
  have hsize : (Reader.new source).size = Text.size source.toList := hnew.size_eq
  constructor
  · have hends := endsNodes_nodes [] hnew (by omega : Text.size source.toList < 0 + ((Reader.new source).size + 1))
    simpa [endsNodes] using hends
  · intro fuel hfuel
    exact nodes_enough [] hnew (by omega) (by omega)
  · intro r pos h
    have hr := h.size_eq
    exact endsAttributes_kind_attributes h (by omega)
  · intro r pos h fuel hfuel
    have hr := h.size_eq
    exact attributes_enough h (by omega) (by omega)

/-- The raw nodes of a source lie in it one behind another, and the reader still stands in it. -/
theorem Reader.nodes_new_describe (source : String) (fuel : Nat) :
    Siblings source.toList 0 (nodes fuel [] (Reader.new source)).1 (Text.size source.toList) ∧
      ∃ pos, (nodes fuel [] (Reader.new source)).2.Stands source.toList pos := by
  obtain ⟨pos, hstands, hsiblings⟩ := nodes_describe fuel [] (Reader.Stands.new source)
  exact ⟨hsiblings.mono (Nat.le_refl _) hstands.isPlace.le_size, pos, hstands⟩

/-- The faults of a template have places in it. -/
theorem fits_of_mem_parseTemplate (source : String) : ∀ e ∈ (parseTemplate source).2, e.span.Fits source.toList := by
  intro e he
  obtain ⟨hsiblings, pos, hstands⟩ := Reader.nodes_new_describe source ((Reader.new source).size + 1)
  rcases List.mem_append.1 he with he | he
  · exact hstands.errors_fit e he
  · exact (Node.fold_describes hsiblings).2 e he

/-- The elements of a template are as they were read, and what reading them noted is among the faults. -/
theorem parseTemplate_read (source : String) :
    ∀ e ∈ nodeHeads (parseTemplate source).1.nodes, e.IsRead source.toList (parseTemplate source).2 := by
  obtain ⟨-, hread⟩ := Reader.nodes_read ((Reader.new source).size + 1) [] (Reader.Stands.new source)
  intro e he
  exact (Node.heads_fold (Element.stable_isRead _ _) hread e he).mono (List.subset_append_left _ _)

/-- The tree of a template describes the source. -/
theorem describes_parseTemplate (source : String) : (parseTemplate source).1.Describes source.toList := by
  obtain ⟨hsiblings, pos, hstands⟩ := Reader.nodes_new_describe source ((Reader.new source).size + 1)
  exact ⟨congrArg (Span.mk 0) hstands.size_eq, (Node.fold_describes hsiblings).1⟩

/-- Reading a template ends, and its tree describes the source: every place lies between characters and within the place around it,
siblings follow each other, and every text that is kept stands in the source at the offset kept with it. -/
theorem parseTemplate_describes (source : String) :
    Reader.Terminates source ∧ (parseTemplate source).1.Describes source.toList :=
  ⟨Reader.terminates source, describes_parseTemplate source⟩

end Markup

end TypedSfc
