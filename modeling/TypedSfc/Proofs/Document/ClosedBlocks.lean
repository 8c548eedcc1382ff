import TypedSfc.Proofs.Document.Partition
import TypedSfc.Proofs.Markup.Endings

/-!
# The closing tags of blocks

A block that is no template ends at the first place where the source has the marks of a closing tag and the name of the block. The name
may go on there: it is looked for as the beginning of a name, and no more is asked when the closing tag is skipped. An element of a
template whose content is no markup is looked for in the same way, but is closed by a tag of its own name only.
-/

namespace TypedSfc

open Markup

/-- A block has content that is behind its opening tag and before a closing tag. -/
def Block.IsClosed (b : Block) : Prop := b.outer.start < b.inner.start ∧ b.inner.stop < b.outer.stop

instance (b : Block) : Decidable b.IsClosed := inferInstanceAs (Decidable (_ ∧ _))

namespace Document

variable {source : List Char} {pos : Nat} {r : Reader}

/-- A content ends where the marks and a name are first found. No closing tag of the name is before it, and there is one at its end when
the name is whole. -/
structure EndsAtMarks (source : List Char) (tag : String) (inner : Span) : Prop where
  none_before : ∀ p, inner.start ≤ p → p < inner.stop → ¬ClosesAt source tag p
  exists_marks : ∃ name more, Text.Rest source inner.stop ('<' :: '/' :: (name ++ more)) ∧ Tag.same tag (String.ofList name) = true ∧
    (ClosesAt source tag inner.stop ↔ ∀ c ∈ more.head?, Token.isNameChar c = false)

/-! ## The block here -/

/-- A block is closed when its tag has its end and does not close itself, and a closing tag is found. -/
theorem isClosed_blockHere (h : r.Stands source pos) (ho : r.atTagOpen = true) :
    (blockHere r).IsClosed ↔ (r.startTag.1.selfClosing || !r.startTag.1.terminated) = false ∧
      ∃ close, findClose source r.startTag.1.tag r.startTag.1.stop = some close ∧ (blockHere r).inner = ⟨r.startTag.1.stop, close⟩ := by
  have htag := Reader.takesTag h ho
  have hlt := htag.start_lt
  show (r.startTag.1.start < (extent r.startTag.2 r.startTag.1).1.start ∧
    (extent r.startTag.2 r.startTag.1).1.stop < (extent r.startTag.2 r.startTag.1).2.1) ↔
      _ ∧ ∃ close, _ ∧ (extent r.startTag.2 r.startTag.1).1 = _
  generalize r.startTag = x at htag hlt ⊢
  obtain ⟨t, r'⟩ := x
  dsimp only at htag hlt ⊢
  unfold extent
  split
  · rename_i hempty
    simp [hempty, Span.empty]
  · rename_i hopen
    rw [Bool.not_eq_true] at hopen
    rw [htag.stands.source_eq]
    cases hfind : findClose source t.tag t.stop with
    | some close =>
      obtain ⟨hle, more, hmore⟩ := exists_of_findClose htag hopen hfind
      have hsync : (r'.sync close).Stands source close := htag.stands.sync hmore.isPlace hle
      obtain ⟨own, behind, -, hf, hstart⟩ := hsync.faces_of_rest hmore rfl
      obtain ⟨-, -, hstop⟩ := Reader.skipClosingTag_stands hsync hf.kind_eq
      have hbehind : close < (r'.sync close).skipClosingTag.1.stop := by omega
      simp [hopen, hlt, hbehind]
    | none => simp [hopen]

/-- A closed block that is no template ends at the marks of a closing tag. -/
theorem blockHere_endsAtMarks (h : r.Stands source pos) (ho : r.atTagOpen = true) (htemplate : r.startTag.1.tag ≠ "template")
    (hclosed : (blockHere r).IsClosed) : EndsAtMarks source r.startTag.1.tag (blockHere r).inner := by
  obtain ⟨-, close, hfind, hinner⟩ := (isClosed_blockHere h ho).1 hclosed
  obtain ⟨rest, hrest⟩ := (Reader.takesTag h ho).stands.isPlace
  rw [findClose, if_neg htemplate, hrest.after_eq] at hfind
  obtain ⟨n, hn, rfl⟩ := Option.map_eq_some_iff.1 hfind
  obtain ⟨hnone, hmarks⟩ := closesAt_of_find hrest (Reader.isNameChar_of_mem_tag h ho) hn
  rw [hinner]
  exact ⟨hnone, hmarks⟩

/-! ## All blocks -/

/-- The blocks that are read, each with its opening tag; a block that another of its kind replaces is among them. -/
def readBlocks : Nat → Draft → Reader → List (Reader.StartTag × Block)
  | 0, _, _ => []
  | fuel + 1, d, r =>
    match r.kind with
    | .eof => []
    | .commentOpen =>
      readBlocks fuel { d with document := { d.document with comments := d.document.comments ++ [r.comment.2.1] } } r.comment.2.2
    | .angleSlash => readBlocks fuel d (r.skipClosingTag.2.errorAt (.strayClosingTag r.closingName) r.skipClosingTag.1)
    | _ =>
      if r.atTagOpen then
        let next := addBlock d (behindBlock r) r.startTag.1 (blockHere r)
        (r.startTag.1, blockHere r) :: readBlocks fuel next.1 next.2
      else readBlocks fuel d r.text.2

/-- A block that was read: it is that of its tag, where a reader of the source stands. -/
def IsReadBlock (source : List Char) (p : Reader.StartTag × Block) : Prop :=
  ∃ r pos, Reader.Stands source pos r ∧ r.atTagOpen = true ∧ p = (r.startTag.1, blockHere r)

/-- A block joins a document under some name, and those of the document were there or are blocks that joined. -/
theorem mem_allBlocks_addBlock (d : Draft) (r : Reader) (t : Reader.StartTag) (b : Block) :
    ∀ a ∈ (addBlock d r t b).1.document.allBlocks, a ∈ d.document.allBlocks ∨ ∃ name, a = { b with name := name } := by
  obtain ⟨name, hadds⟩ := addBlock_adds d r t b
  obtain ⟨front, old, back, hold, hnew⟩ := hadds.allBlocks_eq
  intro a ha
  rw [hnew, List.mem_append, List.mem_cons] at ha
  rw [hold]
  rcases ha with ha | ha | ha
  · exact .inl (List.mem_append_left _ ha)
  · exact .inr ⟨name, ha⟩
  · exact .inl (List.mem_append_right _ (List.mem_append_right _ ha))

/-- The blocks that are read are those of their tags, and those of the document were there or are read. -/
theorem readBlocks_are_read (fuel : Nat) (d : Draft) (h : r.Stands source pos) :
    (∀ p ∈ readBlocks fuel d r, IsReadBlock source p) ∧
      ∀ b ∈ (blocks fuel d r).1.document.allBlocks,
        b ∈ d.document.allBlocks ∨ ∃ p ∈ readBlocks fuel d r, ∃ name, b = { p.2 with name := name } := by
  induction fuel generalizing r pos d with
  | zero => exact ⟨by simp [readBlocks], fun b hb => .inl hb⟩
  | succ fuel ih =>
    cases hk : r.kind with
    | eof =>
      rw [readBlocks, blocks, hk]
      exact ⟨by simp, fun b hb => .inl hb⟩
    | commentOpen =>
      rw [readBlocks, blocks, hk]
      exact ih _ (Reader.yields_comment h hk).stands
    | angleSlash =>
      rw [readBlocks, blocks, hk]
      exact ih _ ((Reader.skipClosingTag_stands h hk).1.errorAt _ (Reader.skipClosingTag_fits h hk))
    | mustacheOpen | angle | close | slashClose | slash | equals | doubleQuote | singleQuote | mustacheClose | brace | newline | name =>
      cases ho : r.atTagOpen with
      | true =>
        have hnext := addBlock_stands d (blockHere r) (behindBlock_stands h ho) (Reader.takesTag h ho).fits
        obtain ⟨hread, hmem⟩ := ih _ hnext
        rw [blocks_of_atTagOpen h ho, readBlocks, hk]
        simp only [ho, if_true]
        refine ⟨List.forall_mem_cons.2 ⟨⟨r, pos, h, ho, rfl⟩, hread⟩, fun b hb => ?_⟩
        rcases hmem b hb with hb | ⟨p, hp, hname⟩
        · rcases mem_allBlocks_addBlock _ _ _ _ b hb with hb | hname
          · exact .inl hb
          · exact .inr ⟨_, List.mem_cons_self, hname⟩
        · exact .inr ⟨p, List.mem_cons_of_mem _ hp, hname⟩
      | false =>
        have hnext := ih d (Reader.yields_text h (by rw [hk]; decide)).stands
        rw [readBlocks, blocks, hk]
        simp only [ho]
        exact hnext

/-- The blocks of a source as they are read. -/
def blocksOf (source : String) : List (Reader.StartTag × Block) :=
  readBlocks ((Reader.new source).size + 1) ⟨{ source := source }, []⟩ (Reader.new source)

theorem mem_allBlocks_withScript {d : Document} {b : Block} (h : b ∈ (withScript d).allBlocks) : b = noScript ∨ b ∈ d.allBlocks := by
  unfold withScript at h
  split at h
  · simp only [allBlocks, Option.toList_some, List.mem_append, List.mem_singleton] at h ⊢
    tauto
  · exact .inr h

/-- The blocks of a document are those that are read, but for their names, and the script of a document without any. -/
theorem mem_blocksOf_of_mem_allBlocks (source : String) : ∀ b ∈ (split source).1.allBlocks,
    b = noScript ∨ ∃ p ∈ blocksOf source, ∃ name, b = { p.2 with name := name } := by
  obtain ⟨-, hmem⟩ := readBlocks_are_read ((Reader.new source).size + 1) ⟨{ source := source }, []⟩ (Reader.Stands.new source)
  intro b hb
  rcases mem_allBlocks_withScript hb with hb | hb
  · exact .inl hb
  · rcases hmem b hb with hb | hread
    · simp [allBlocks] at hb
    · exact .inr hread

/-- A closed block that is no template ends at the first marks of a closing tag that the name of the block follows, and those are of a
closing tag of that name when the name is whole; the blocks of the document are among those that are read. A closed element without markup
in a template ends at its first closing tag. -/
theorem contents_end_at_closing_tags (source : String) :
    (∀ p ∈ blocksOf source, p.1.tag ≠ "template" → p.2.IsClosed → EndsAtMarks source.toList p.1.tag p.2.inner) ∧
    (∀ b ∈ (split source).1.allBlocks, b = noScript ∨ ∃ p ∈ blocksOf source, ∃ name, b = { p.2 with name := name }) ∧
    ∀ p ∈ endingsOf source, Tag.isRaw p.1.tag = true → ∀ n, p.2 = .closed n →
      ∃ close, n = close + 2 ∧ p.1.startTagEnd ≤ close ∧ ClosesAt source.toList p.1.tag close ∧
        ∀ q, p.1.startTagEnd ≤ q → q < close → ¬ClosesAt source.toList p.1.tag q := by
  obtain ⟨hread, -⟩ := readBlocks_are_read ((Reader.new source).size + 1) ⟨{ source := source }, []⟩ (Reader.Stands.new source)
  obtain ⟨pos, hended⟩ := exists_ended source
  refine ⟨?_, mem_blocksOf_of_mem_allBlocks source, ?_⟩
  · intro p hp htemplate hclosed
    obtain ⟨r, pos, hr, ho, rfl⟩ := hread p hp
    exact blockHere_endsAtMarks hr ho htemplate hclosed
  · rintro ⟨e, ending⟩ hp hraw n rfl
    cases (hended.ended _ hp).ends with
    | @closed close mid rest hle hcloses hskips hfirst hself => exact ⟨close, rfl, hle, hcloses, hfirst hraw⟩

theorem exists_of_any_closed {source tag : String} {stop : Nat}
    (h : (blocksOf source).any (fun p => p.1.tag == tag && decide p.2.IsClosed && p.2.inner.stop == stop) = true) :
    ∃ p ∈ blocksOf source, p.1.tag = tag ∧ p.2.IsClosed ∧ p.2.inner.stop = stop := by
  obtain ⟨p, hp, hblock⟩ := List.any_eq_true.1 h
  simp only [Bool.and_eq_true, beq_iff_eq, decide_eq_true_eq] at hblock
  exact ⟨p, hp, hblock.1.1, hblock.1.2, hblock.2⟩

theorem contents_end_at_closing_tags_style : ∃ p ∈ blocksOf "<style>.a</style>", p.1.tag ≠ "template" ∧ p.2.IsClosed ∧
    EndsAtMarks "<style>.a</style>".toList p.1.tag p.2.inner := by
  have hany : (blocksOf "<style>.a</style>").any
      (fun p => p.1.tag == "style" && decide p.2.IsClosed && p.2.inner.stop == 9) = true := by decide +kernel
  obtain ⟨p, hp, htag, hclosed, -⟩ := exists_of_any_closed hany
  have htemplate : p.1.tag ≠ "template" := by
    rw [htag]
    decide
  exact ⟨p, hp, htemplate, hclosed, (contents_end_at_closing_tags "<style>.a</style>").1 p hp htemplate hclosed⟩

/-- The closing tag of a longer name ends a block. -/
theorem not_closesAt_of_longer_name : ∃ p ∈ blocksOf "<style>.a</styles></style>", p.1.tag ≠ "template" ∧ p.2.IsClosed ∧
    ¬ClosesAt "<style>.a</styles></style>".toList p.1.tag p.2.inner.stop := by
  have hany : (blocksOf "<style>.a</styles></style>").any
      (fun p => p.1.tag == "style" && decide p.2.IsClosed && p.2.inner.stop == 9) = true := by decide +kernel
  obtain ⟨p, hp, htag, hclosed, hstop⟩ := exists_of_any_closed hany
  have hrest : Text.Rest "<style>.a</styles></style>".toList 9 ('<' :: '/' :: "styles></style>".toList) :=
    ⟨"<style>.a".toList, by decide +kernel, by decide +kernel⟩
  refine ⟨p, hp, by rw [htag]; decide, hclosed, ?_⟩
  rw [htag, hstop, closesAt_iff hrest]
  decide +kernel

end Document

end TypedSfc
