import TypedSfc.Proofs.Markup.Nodes

/-!
# Reading does not look at faults

A reader notes faults and never reads them: with other faults noted before, it reads the same, and notes its own behind them.
-/

namespace TypedSfc

namespace Markup

namespace Reader

/-- The reader with faults noted before its own. -/
def noted (es : List ParseError) (r : Reader) : Reader := { r with errors := es ++ r.errors }

variable (es : List ParseError) (r : Reader)

@[simp] theorem noted_source : (r.noted es).source = r.source := rfl

@[simp] theorem noted_tokens : (r.noted es).tokens = r.tokens := rfl

@[simp] theorem noted_errors : (r.noted es).errors = es ++ r.errors := rfl

@[simp] theorem noted_size : (r.noted es).size = r.size := rfl

@[simp] theorem noted_peek (n : Nat) : (r.noted es).peek n = r.peek n := rfl

@[simp] theorem noted_current : (r.noted es).current = r.current := rfl

@[simp] theorem noted_kind : (r.noted es).kind = r.kind := rfl

@[simp] theorem noted_start : (r.noted es).start = r.start := rfl

@[simp] theorem noted_textOf (t : Token) : (r.noted es).textOf t = r.textOf t := rfl

@[simp] theorem noted_rest (pos : Nat) : (r.noted es).rest pos = r.rest pos := rfl

@[simp] theorem noted_atTagOpen : (r.noted es).atTagOpen = r.atTagOpen := rfl

@[simp] theorem noted_closingName : (r.noted es).closingName = r.closingName := rfl

/-! ## Steps -/

@[simp] theorem advance_noted : (r.noted es).advance = r.advance.noted es := rfl

@[simp] theorem errorAt_noted (f : Fault) (s : Span) : (r.noted es).errorAt f s = (r.errorAt f s).noted es := by
  simp [errorAt, noted]

@[simp] theorem error_noted (f : Fault) : (r.noted es).error f = (r.error f).noted es := errorAt_noted es r f _

@[simp] theorem sync_noted (offset : Nat) : (r.noted es).sync offset = (r.sync offset).noted es := by
  unfold sync
  simp only [noted_tokens, noted_source]
  split
  · rfl
  · split <;> rfl

@[simp] theorem skipClosingTag_noted : (r.noted es).skipClosingTag = (r.skipClosingTag.1, r.skipClosingTag.2.noted es) := by
  have hdrop : ({ r.noted es with tokens := (r.noted es).tokens.tail.dropWhile fun t => !endsClosingTag t.kind } : Reader) =
      ({ r with tokens := r.tokens.tail.dropWhile fun t => !endsClosingTag t.kind } : Reader).noted es := rfl
  unfold skipClosingTag
  dsimp only
  rw [hdrop]
  generalize ({ r with tokens := r.tokens.tail.dropWhile fun t => !endsClosingTag t.kind } : Reader) = r'
  rw [noted_kind]
  cases r'.kind == TokenKind.close <;> rfl

@[simp] theorem comment_noted : (r.noted es).comment = (r.comment.1, r.comment.2.1, r.comment.2.2.noted es) := by
  unfold comment
  simp only [noted_start, noted_rest, noted_size, error_noted, sync_noted]
  split <;> rfl

@[simp] theorem interpolation_noted : (r.noted es).interpolation = (r.interpolation.1, r.interpolation.2.noted es) := by
  unfold interpolation
  simp only [noted_start, noted_rest, noted_size, error_noted, sync_noted]
  split <;> rfl

@[simp] theorem text_noted : (r.noted es).text = (r.text.1, r.text.2.noted es) := by
  unfold text
  simp only [noted_start, noted_rest, sync_noted]

/-! ## Opening tags -/

@[simp] theorem quotedValue_noted (quote : Char) :
    (r.noted es).quotedValue quote = ((r.quotedValue quote).1, (r.quotedValue quote).2.1, (r.quotedValue quote).2.2.noted es) := by
  unfold quotedValue
  simp only [noted_current, noted_rest, noted_size, noted_kind, error_noted, sync_noted, advance_noted]
  split
  · dsimp only
    split <;> rfl
  · rfl

@[simp] theorem bareValue_noted : (r.noted es).bareValue = (r.bareValue.1, r.bareValue.2.1, r.bareValue.2.2.noted es) := by
  unfold bareValue
  simp only [noted_start, noted_rest, sync_noted]

@[simp] theorem readAttribute_noted : (r.noted es).readAttribute = (r.readAttribute.1, r.readAttribute.2.noted es) := by
  have hdrop : ({ r.advance.noted es with tokens := r.advance.tokens.tail.dropWhile fun t => t.kind == TokenKind.newline } : Reader) =
      ({ r.advance with tokens := r.advance.tokens.tail.dropWhile fun t => t.kind == TokenKind.newline } : Reader).noted es := rfl
  unfold readAttribute
  simp only [noted_current, noted_textOf, advance_noted, noted_kind, noted_tokens]
  rw [hdrop]
  simp only [noted_kind, quotedValue_noted, bareValue_noted, error_noted]
  split
  · split <;> rfl
  · rfl

@[simp] theorem attributes_noted (fuel : Nat) :
    attributes fuel (r.noted es) = ((attributes fuel r).1, (attributes fuel r).2.noted es) := by
  induction fuel generalizing r with
  | zero => rfl
  | succ fuel ih =>
    rw [attributes, attributes]
    simp only [noted_kind, readAttribute_noted, advance_noted, error_noted, ih]
    split <;> rfl

@[simp] theorem startTag_noted : (r.noted es).startTag = (r.startTag.1, r.startTag.2.noted es) := by
  unfold startTag
  simp only [noted_start, noted_current, noted_textOf, noted_size, advance_noted, attributes_noted, noted_kind, error_noted]
  split <;> rfl

/-! ## Nodes -/

@[simp] theorem closingTag_noted (tag : String) (startTag : Span) :
    (r.noted es).closingTag tag startTag = ((r.closingTag tag startTag).1, (r.closingTag tag startTag).2.noted es) := by
  unfold closingTag
  simp only [noted_kind, noted_closingName, noted_start, skipClosingTag_noted, errorAt_noted]
  split <;> rfl

@[simp] theorem behind_noted (t : StartTag) : t.behind (r.noted es) = (t.behind r).noted es := by
  simp only [StartTag.behind, noted, List.append_assoc]

/-- The nodes that are read, and the faults that reading them adds, are the same whatever was noted before. -/
theorem nodes_noted (fuel : Nat) (opened : List String) :
    nodes fuel opened (r.noted es) = ((nodes fuel opened r).1, (nodes fuel opened r).2.noted es) := by
  induction fuel generalizing r opened with
  | zero => rfl
  | succ fuel ih =>
    have hfaults : ∀ (r : Reader) (fs : List ParseError),
        (⟨r.source, r.tokens, es ++ r.errors ++ fs⟩ : Reader) = (⟨r.source, r.tokens, r.errors ++ fs⟩ : Reader).noted es := by
      intro r fs
      rw [noted, List.append_assoc]
    rw [nodes, nodes]
    simp only [noted_kind, noted_closingName, noted_atTagOpen, skipClosingTag_noted, comment_noted, interpolation_noted, text_noted,
      startTag_noted, errorAt_noted, noted_source, noted_tokens, noted_errors, hfaults, noted_rest, sync_noted, closingTag_noted, ih]
    repeat' split
    all_goals rfl

end Reader

end Markup

end TypedSfc
