import TypedSfc.Proofs.Document.Blocks

/-!
# A document in its blocks

Splitting begins with a document that has no blocks, and what it has at the end of the file it has of the whole source. The script that
a document without any is given is at its very start and empty, so it keeps what holds of the others.

The nodes of a document are those of the content of its template, whose faults are among those of the document, and what a style refers
to was found in the content of the style. No turn of splitting changes this, whatever it adds.
-/

namespace TypedSfc

open Markup

namespace Document

/-- The draft that splitting begins with. -/
theorem Draft.holds_new (source : String) : (⟨{ source := source }, []⟩ : Draft).Holds source.toList 0 := by
  refine ⟨⟨rfl, ?_, ?_, ?_, ?_⟩, ?_, ?_⟩ <;> simp [allBlocks]

/-- The script of a document without any describes every source. -/
theorem noScript_describes (source : List Char) : noScript.Describes source := by
  have hzero := Text.isPlace_zero source
  have hreads : noScript.inner.Reads source noScript.content.toList := ⟨⟨source, Text.rest_zero source⟩, rfl⟩
  exact ⟨⟨hzero, hzero, Nat.le_refl _⟩, hreads, Nat.le_refl _, Nat.le_refl _, by simp [noScript]⟩

/-- A document with a script describes what it describes without. -/
theorem Describes.withScript {source : List Char} {d : Document} (h : d.Describes source) : (withScript d).Describes source := by
  unfold Document.withScript
  split
  · rename_i hnone
    rw [Bool.and_eq_true, Option.isNone_iff_eq_none, Option.isNone_iff_eq_none] at hnone
    have hmiddle : ({ d with scriptSetup := some noScript } : Document).allBlocks =
        (d.template.toList ++ d.script.toList) ++ noScript :: (d.styles.map (·.block) ++ d.customBlocks.map (·.block)) := by
      simp [allBlocks]
    have hold : d.allBlocks =
        (d.template.toList ++ d.script.toList) ++ (d.styles.map (·.block) ++ d.customBlocks.map (·.block)) := by
      simp [allBlocks, hnone.2]
    refine ⟨h.source_eq, ?_, ?_, h.styles_inOrder, h.customBlocks_inOrder⟩
    · intro b hb
      rw [hmiddle, List.mem_append, List.mem_cons] at hb
      rcases hb with hb | rfl | hb
      · exact h.blocks_describe b (hold ▸ List.mem_append_left _ hb)
      · exact noScript_describes source
      · exact h.blocks_describe b (hold ▸ List.mem_append_right _ hb)
    · rw [hmiddle, List.pairwise_middle Block.Apart.symm, ← hold]
      exact List.pairwise_cons.2 ⟨fun b _ => .inl (Nat.zero_le _), h.blocks_apart⟩
  · exact h

/-- One of the two scripts is there. -/
theorem isSome_withScript (d : Document) : ((withScript d).script.isSome || (withScript d).scriptSetup.isSome) = true := by
  unfold Document.withScript
  cases hscript : d.script <;> cases hsetup : d.scriptSetup <;> simp [hscript, hsetup]

/-- Splitting a source ends: all of it is read, bounds on the steps that are more than its bytes make no difference, for its blocks and
for the attributes of its tags, and the same is so for every template that is read on the way. -/
structure Terminates (source : String) : Prop where
  kind_eq : (blocks ((Reader.new source).size + 1) ⟨{ source := source }, []⟩ (Reader.new source)).2.kind = .eof
  blocks_eq : ∀ fuel, (Reader.new source).size < fuel →
    blocks fuel ⟨{ source := source }, []⟩ (Reader.new source) =
      blocks ((Reader.new source).size + 1) ⟨{ source := source }, []⟩ (Reader.new source)
  attributes_ends : ∀ (r : Reader) (pos : Nat), r.Stands source.toList pos →
    Reader.endsAttributes (Reader.attributes (r.size + 1) r).2.kind = true
  attributes_eq : ∀ (r : Reader) (pos : Nat), r.Stands source.toList pos → ∀ fuel, r.size < pos + fuel →
    Reader.attributes fuel r = Reader.attributes (r.size + 1) r
  template : ∀ content : String, Reader.Terminates content

theorem terminates (source : String) : Terminates source := by
  have hnew := Reader.Stands.new source
  have hdraft := Draft.holds_new source
  have hsize : (Reader.new source).size = Text.size source.toList := hnew.size_eq
  have hreader := Reader.terminates source
  refine ⟨kind_blocks hnew hdraft (by omega), ?_, hreader.attributes_ends, hreader.attributes_eq, Reader.terminates⟩
  intro fuel hfuel
  exact blocks_enough hnew hdraft (by omega) (by omega)

/-- Sorted faults are in the order of their places. -/
theorem pairwise_mergeSort_start (es : List ParseError) :
    (es.mergeSort fun a b => decide (a.span.start ≤ b.span.start)).Pairwise fun a b => a.span.start ≤ b.span.start := by
  have htrans : ∀ a b c : ParseError, decide (a.span.start ≤ b.span.start) = true → decide (b.span.start ≤ c.span.start) = true →
      decide (a.span.start ≤ c.span.start) = true := by
    intro a b c hab hbc
    exact decide_eq_true (le_trans (of_decide_eq_true hab) (of_decide_eq_true hbc))
  have htotal : ∀ a b : ParseError, (decide (a.span.start ≤ b.span.start) || decide (b.span.start ≤ a.span.start)) = true := by
    intro a b
    rw [Bool.or_eq_true, decide_eq_true_eq, decide_eq_true_eq]
    exact Nat.le_total ..
  exact (List.pairwise_mergeSort htrans htotal es).imp fun h => of_decide_eq_true h

/-- The blocks of a source describe it. -/
theorem describes_split (source : String) : (split source).1.Describes source.toList := by
  obtain ⟨pos, -, hholds⟩ := blocks_holds ((Reader.new source).size + 1) (Reader.Stands.new source) (Draft.holds_new source)
  exact hholds.describes.withScript

/-- Splitting a source ends; its blocks describe it, share no byte and come in order, a script is among them, and its faults have places
in it and are in the order of those. -/
theorem split_describes (source : String) :
    Terminates source ∧ (split source).1.Describes source.toList ∧
      ((split source).1.script.isSome || (split source).1.scriptSetup.isSome) = true ∧
      (∀ e ∈ (split source).2, e.span.Fits source.toList) ∧
      (split source).2.Pairwise fun a b => a.span.start ≤ b.span.start := by
  obtain ⟨pos, hstands, hholds⟩ :=
    blocks_holds ((Reader.new source).size + 1) (Reader.Stands.new source) (Draft.holds_new source)
  refine ⟨terminates source, describes_split source, isSome_withScript _, ?_, ?_⟩
  · intro e he
    rcases List.mem_append.1 (List.mem_mergeSort.1 he) with he | he
    · exact hstands.errors_fit e he
    · exact hholds.errors_fit e he
  · exact pairwise_mergeSort_start _

/-! ## What is read from the contents of blocks -/

/-- The nodes of a document and what its styles refer to were read from the contents of their blocks; the faults of the template are
among the given ones. -/
structure ReadsContents (errors : List ParseError) (d : Document) : Prop where
  fragment_read : ∀ f ∈ d.fragment, ∃ b, d.template = some b ∧ f = (parseTemplate b.content).1 ∧
    ∀ e ∈ (parseTemplate b.content).2, e.shift b.inner.start ∈ errors
  styles_read : ∀ s ∈ d.styles, s.bindings = Stylesheet.bindings s.block.content ∧ s.classNames = Stylesheet.classNames s.block.content

theorem ReadsContents.mono {errors errors' : List ParseError} {d : Document} (h : d.ReadsContents errors) (hsub : errors ⊆ errors') :
    d.ReadsContents errors' := by
  refine ⟨fun f hf => ?_, h.styles_read⟩
  obtain ⟨b, hb, heq, hfaults⟩ := h.fragment_read f hf
  exact ⟨b, hb, heq, fun e he => hsub (hfaults e he)⟩

/-- A block that is added brings what is read from its content. -/
theorem ReadsContents.addBlock {d : Draft} (h : d.document.ReadsContents d.templateErrors) (r : Reader) (t : Reader.StartTag) (b : Block) :
    (addBlock d r t b).1.document.ReadsContents (addBlock d r t b).1.templateErrors := by
  unfold Document.addBlock
  dsimp only
  split
  · split
    · refine ⟨fun f hf => ?_, h.styles_read⟩
      obtain rfl := Option.some.inj hf
      exact ⟨b, rfl, rfl, fun e he => List.mem_append_right _ (List.mem_map.2 ⟨e, he, rfl⟩)⟩
    · exact ⟨by simp, h.styles_read⟩
  · split
    · split <;> exact ⟨h.fragment_read, h.styles_read⟩
    · split
      · refine ⟨h.fragment_read, fun s hs => ?_⟩
        rcases List.mem_append.1 hs with hs | hs
        · exact h.styles_read s hs
        · rw [List.mem_singleton.1 hs]
          exact ⟨rfl, rfl⟩
      · exact ⟨h.fragment_read, h.styles_read⟩

/-- Splitting keeps what is read from contents. -/
theorem readsContents_blocks (fuel : Nat) {d : Draft} (r : Reader) (h : d.document.ReadsContents d.templateErrors) :
    (blocks fuel d r).1.document.ReadsContents (blocks fuel d r).1.templateErrors := by
  induction fuel generalizing d r with
  | zero => exact h
  | succ fuel ih =>
    rw [blocks]
    split
    · exact h
    · exact ih _ ⟨h.fragment_read, h.styles_read⟩
    · exact ih _ h
    · split
      · exact ih _ (h.addBlock _ _ _)
      · exact ih _ h

/-- What a split document has of its contents was read from them, and the faults of the template are among those of the document. -/
theorem split_readsContents (source : String) : (split source).1.ReadsContents (split source).2 := by
  have hblocks := readsContents_blocks (d := ⟨{ source := source }, []⟩) ((Reader.new source).size + 1) (Reader.new source)
    ⟨by simp, by simp⟩
  unfold split
  dsimp only
  generalize blocks ((Reader.new source).size + 1) ⟨{ source := source }, []⟩ (Reader.new source) = x at hblocks ⊢
  have hsub : x.1.templateErrors ⊆ (x.2.errors ++ x.1.templateErrors).mergeSort fun a b => decide (a.span.start ≤ b.span.start) :=
    fun e he => List.mem_mergeSort.2 (List.mem_append_right _ he)
  have hreads := hblocks.mono hsub
  unfold withScript
  split
  · exact ⟨hreads.fragment_read, hreads.styles_read⟩
  · exact hreads

end Document

end TypedSfc
