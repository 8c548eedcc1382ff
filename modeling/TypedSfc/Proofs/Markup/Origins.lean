import TypedSfc.Proofs.Markup.Folds
import TypedSfc.Proofs.Markup.Heads
import TypedSfc.Proofs.Markup.OpeningTags

/-!
# Where elements come from

An element has the name of the tag that it was read from, which begins with a letter, and its properties are those of the attributes
there. What reading an attribute notes as a fault is still noted at the end, since no step takes faults back.
-/

namespace TypedSfc

namespace Markup

variable {source : List Char}

/-- An element as it was read: its tag begins with a letter, and its properties were read from attributes whose faults are among some. -/
structure Element.IsRead (source : List Char) (errors : List ParseError) (e : Element) : Prop where
  tag_letter : e.tag.toList.head?.any Char.isAlpha = true
  props_read : ∀ p ∈ e.props, ∃ raw : RawAttribute, raw.Describes source ∧ raw.property.1 = p ∧ raw.property.2 ⊆ errors

theorem Element.IsRead.mono {errors errors' : List ParseError} {e : Element} (h : e.IsRead source errors) (hsub : errors ⊆ errors') :
    e.IsRead source errors' := by
  refine ⟨h.tag_letter, fun p hp => ?_⟩
  obtain ⟨raw, hraw, hproperty, hfaults⟩ := h.props_read p hp
  exact ⟨raw, hraw, hproperty, List.Subset.trans hfaults hsub⟩

/-- Directives that are taken away leave an element as it was read. -/
theorem Element.stable_isRead (source : List Char) (errors : List ParseError) : Element.Stable (Element.IsRead source errors) := by
  intro e name d e' htake h
  obtain ⟨-, rfl⟩ := Element.take_eq_some_iff.1 htake
  exact ⟨h.tag_letter, fun p hp => h.props_read p (List.mem_of_mem_eraseP hp)⟩

namespace Reader

/-- A property is that of an attribute, whose faults are noted. -/
theorem exists_of_mem_properties {as : List RawAttribute} {p : Property} (hp : p ∈ (properties as).1) :
    ∃ a ∈ as, a.property.1 = p ∧ a.property.2 ⊆ (properties as).2 := by
  induction as with
  | nil => cases hp
  | cons a as ih =>
    rcases List.mem_cons.1 hp with rfl | hp
    · exact ⟨a, List.mem_cons_self, rfl, List.subset_append_left _ _⟩
    · obtain ⟨b, hb, hproperty, hfaults⟩ := ih hp
      exact ⟨b, List.mem_cons_of_mem a hb, hproperty, List.Subset.trans hfaults (List.subset_append_right _ _)⟩

/-! ## Faults are kept -/

@[simp] theorem errors_advance (r : Reader) : r.advance.errors = r.errors := rfl

theorem errors_errorAt (r : Reader) (f : Fault) (s : Span) : r.errors ⊆ (r.errorAt f s).errors := List.subset_append_left _ _

theorem errors_error (r : Reader) (f : Fault) : r.errors ⊆ (r.error f).errors := r.errors_errorAt f _

theorem errors_comment (r : Reader) : r.errors ⊆ r.comment.2.2.errors := by
  unfold comment
  dsimp only
  split
  · simp
  · simpa using r.errors_error _

theorem errors_interpolation (r : Reader) : r.errors ⊆ r.interpolation.2.errors := by
  unfold interpolation
  dsimp only
  split
  · simp
  · simpa using r.errors_error _

/-- An interpolation, or the text of one that does not end, has no elements. -/
theorem heads_interpolation (r : Reader) : r.interpolation.1.heads = [] := by
  unfold interpolation
  dsimp only
  split <;> rfl

theorem errors_text (r : Reader) : r.errors ⊆ r.text.2.errors := by
  unfold text
  simp

@[simp] theorem errors_skipClosingTag (r : Reader) : r.skipClosingTag.2.errors = r.errors := by
  unfold skipClosingTag
  dsimp only
  split <;> rfl

theorem errors_closingTag (r : Reader) (tag : String) (startTag : Span) : r.errors ⊆ (r.closingTag tag startTag).2.errors := by
  unfold closingTag
  split
  · simp
  · exact r.errors_errorAt _ _

theorem errors_quotedValue (r : Reader) (quote : Char) : r.errors ⊆ (r.quotedValue quote).2.2.errors := by
  unfold quotedValue
  dsimp only
  split
  · dsimp only
    split <;> simp
  · simpa using r.errors_error _

theorem errors_bareValue (r : Reader) : r.errors ⊆ r.bareValue.2.2.errors := by
  unfold bareValue
  simp

theorem errors_readAttribute (r : Reader) : r.errors ⊆ r.readAttribute.2.errors := by
  unfold readAttribute
  dsimp only
  split
  · -- The reader behind the equals sign has the same faults.
    have hbehind : ∀ r' : Reader, r'.errors = r.errors → r.errors ⊆ (r'.quotedValue '\x22').2.2.errors ∧
        r.errors ⊆ (r'.quotedValue '\x27').2.2.errors ∧ (∀ f, r.errors ⊆ (r'.error f).errors) ∧
          r.errors ⊆ r'.bareValue.2.2.errors := by
      intro r' heq
      rw [← heq]
      exact ⟨r'.errors_quotedValue _, r'.errors_quotedValue _, r'.errors_error, r'.errors_bareValue⟩
    obtain ⟨hdouble, hsingle, herror, hbare⟩ :=
      hbehind { r.advance with tokens := r.advance.tokens.tail.dropWhile fun t => t.kind == TokenKind.newline } rfl
    split
    · exact hdouble
    · exact hsingle
    · exact herror _
    · exact herror _
    · exact herror _
    · exact hbare
  · simp

theorem errors_attributes (fuel : Nat) (r : Reader) : r.errors ⊆ (attributes fuel r).2.errors := by
  induction fuel generalizing r with
  | zero => simp [attributes]
  | succ fuel ih =>
    rw [attributes]
    split
    · exact List.Subset.trans r.errors_readAttribute (ih _)
    · exact ih r.advance
    · exact ih r.advance
    · simp
    · simp
    · simp
    · simp
    · simp
    · simp
    · exact List.Subset.trans (r.errors_error _) (ih (r.error _).advance)

theorem errors_startTag (r : Reader) : r.errors ⊆ r.startTag.2.errors := by
  unfold startTag
  dsimp only
  have hattributes := errors_attributes (r.advance.advance.size + 1) r.advance.advance
  generalize attributes (r.advance.advance.size + 1) r.advance.advance = x at hattributes ⊢
  split
  · exact hattributes
  · exact hattributes
  · exact List.Subset.trans hattributes (x.2.errors_error _)

end Reader

end Markup

end TypedSfc
