import TypedSfc.Proofs.Document.Extents

/-!
# The blocks of a document

Each turn of splitting a document takes a block or passes what is none, and goes on behind it. A new block is behind all the blocks that
were read, so it shares no byte with them, whether it joins them or replaces one of them.
-/

namespace TypedSfc

open Markup

/-- A block ends before another starts. -/
def Block.Precedes (a b : Block) : Prop := a.outer.stop ≤ b.outer.start

/-- Two blocks share no byte. -/
def Block.Apart (a b : Block) : Prop := a.Precedes b ∨ b.Precedes a

theorem Block.Apart.symm {a b : Block} (h : a.Apart b) : b.Apart a := Or.symm h

namespace Document

/-- All blocks of a document. -/
def allBlocks (d : Document) : List Block :=
  d.template.toList ++ (d.script.toList ++ (d.scriptSetup.toList ++ (d.styles.map (·.block) ++ d.customBlocks.map (·.block))))

/-- A document describes its source: its blocks do and share no byte, and those that may come more than once are in order. -/
structure Describes (source : List Char) (d : Document) : Prop where
  source_eq : d.source.toList = source
  blocks_describe : ∀ b ∈ d.allBlocks, b.Describes source
  blocks_apart : d.allBlocks.Pairwise Block.Apart
  styles_inOrder : (d.styles.map (·.block)).Pairwise Block.Precedes
  customBlocks_inOrder : (d.customBlocks.map (·.block)).Pairwise Block.Precedes

/-! ## Adding a block -/

/-- A block joins the blocks of a document, in the place of the one of its kind if only one may stay. -/
structure Adds (b : Block) (d d' : Document) : Prop where
  source_eq : d'.source = d.source
  allBlocks_eq : ∃ front old back, d.allBlocks = front ++ (old ++ back) ∧ d'.allBlocks = front ++ b :: back
  styles_eq : d'.styles.map (·.block) = d.styles.map (·.block) ∨ d'.styles.map (·.block) = d.styles.map (·.block) ++ [b]
  customBlocks_eq : d'.customBlocks.map (·.block) = d.customBlocks.map (·.block) ∨
    d'.customBlocks.map (·.block) = d.customBlocks.map (·.block) ++ [b]

/-- Adding a block adds it, under the name that its kind gives it. -/
theorem addBlock_adds (d : Draft) (r : Reader) (t : Reader.StartTag) (b : Block) :
    ∃ name, Adds { b with name := name } d.document (addBlock d r t b).1.document := by
  unfold addBlock
  dsimp only
  split
  · split
    · exact ⟨b.name, rfl, ⟨[], d.document.template.toList, _, rfl, rfl⟩, .inl rfl, .inl rfl⟩
    · exact ⟨b.name, rfl, ⟨[], d.document.template.toList, _, rfl, rfl⟩, .inl rfl, .inl rfl⟩
  · split
    · split
      · refine ⟨"scriptSetup", rfl, ⟨d.document.template.toList ++ d.document.script.toList, d.document.scriptSetup.toList,
          d.document.styles.map (·.block) ++ d.document.customBlocks.map (·.block), ?_, ?_⟩, .inl rfl, .inl rfl⟩
        · rw [allBlocks, List.append_assoc]
        · simp [allBlocks]
      · exact ⟨b.name, rfl, ⟨d.document.template.toList, d.document.script.toList, _, rfl, rfl⟩, .inl rfl, .inl rfl⟩
    · split
      · refine ⟨_, rfl, ⟨d.document.template.toList ++ (d.document.script.toList ++ (d.document.scriptSetup.toList ++
          d.document.styles.map (·.block))), [], d.document.customBlocks.map (·.block), ?_, ?_⟩, .inr List.map_append, .inl rfl⟩
        · simp [allBlocks]
        · simp [allBlocks]
      · refine ⟨_, rfl, ⟨d.document.allBlocks, [], [], ?_, ?_⟩, .inl rfl, .inr List.map_append⟩
        · simp
        · simp [allBlocks]

/-- A block behind all the others keeps a document describing its source. -/
theorem Adds.describes {source : List Char} {b : Block} {d d' : Document} (h : Adds b d d') (hd : d.Describes source)
    (hb : b.Describes source) (hbehind : ∀ a ∈ d.allBlocks, a.Precedes b) : d'.Describes source := by
  obtain ⟨front, old, back, hold, hnew⟩ := h.allBlocks_eq
  have hkept : ∀ a, a ∈ front ++ back → a ∈ d.allBlocks := by
    intro a ha
    rw [hold]
    exact List.Sublist.mem ha ((List.sublist_append_right old back).append_left front)
  have happart := hd.blocks_apart
  rw [hold] at happart
  have hsub := happart.sublist ((List.sublist_append_right old back).append_left front)
  have hstyles : ∀ a ∈ d.styles.map (·.block), a ∈ d.allBlocks := by
    intro a ha
    simp only [allBlocks, List.mem_append]
    exact .inr (.inr (.inr (.inl ha)))
  have hcustoms : ∀ a ∈ d.customBlocks.map (·.block), a ∈ d.allBlocks := by
    intro a ha
    simp only [allBlocks, List.mem_append]
    exact .inr (.inr (.inr (.inr ha)))
  -- Blocks of a list that are in order stay so with this one behind them.
  have horder : ∀ as : List Block, (∀ a ∈ as, a ∈ d.allBlocks) → as.Pairwise Block.Precedes → (as ++ [b]).Pairwise Block.Precedes := by
    intro as has hpair
    refine List.pairwise_append.2 ⟨hpair, List.pairwise_singleton _ b, ?_⟩
    intro a ha a' ha'
    rw [List.mem_singleton.1 ha']
    exact hbehind a (has a ha)
  constructor
  · rw [h.source_eq]
    exact hd.source_eq
  · intro a ha
    rw [hnew, List.mem_append, List.mem_cons] at ha
    rcases ha with ha | rfl | ha
    · exact hd.blocks_describe a (hkept a (List.mem_append_left back ha))
    · exact hb
    · exact hd.blocks_describe a (hkept a (List.mem_append_right front ha))
  · rw [hnew, List.pairwise_middle Block.Apart.symm]
    exact List.pairwise_cons.2 ⟨fun a ha => .inr (hbehind a (hkept a ha)), hsub⟩
  · rcases h.styles_eq with heq | heq <;> rw [heq]
    · exact hd.styles_inOrder
    · exact horder _ hstyles hd.styles_inOrder
  · rcases h.customBlocks_eq with heq | heq <;> rw [heq]
    · exact hd.customBlocks_inOrder
    · exact horder _ hcustoms hd.customBlocks_inOrder

/-- The faults of a template have places in the document. -/
theorem addBlock_errors_fit {source : List Char} {d : Draft} {b : Block} (r : Reader) (t : Reader.StartTag) (hb : b.Describes source)
    (hd : ∀ e ∈ d.templateErrors, e.span.Fits source) : ∀ e ∈ (addBlock d r t b).1.templateErrors, e.span.Fits source := by
  unfold addBlock
  dsimp only
  split
  · split
    · intro e he
      rcases List.mem_append.1 he with he | he
      · exact hd e he
      · obtain ⟨e', he', rfl⟩ := List.mem_map.1 he
        exact (fits_of_mem_parseTemplate b.content e' he').shift hb.content_reads.1
    · exact hd
  · split
    · split <;> exact hd
    · split <;> exact hd

theorem addBlock_stands {source : List Char} {pos : Nat} {r : Reader} (d : Draft) {t : Reader.StartTag} (b : Block)
    (h : r.Stands source pos) (ht : (⟨t.start, t.stop⟩ : Span).Fits source) : (addBlock d r t b).2.Stands source pos := by
  have hduplicate : ∀ isSecond name, (duplicate r isSecond name t).Stands source pos := by
    intro isSecond name
    unfold duplicate
    split
    · exact h.errorAt _ ht
    · exact h
  unfold addBlock
  dsimp only
  split
  · split <;> exact hduplicate _ _
  · split
    · split <;> exact hduplicate _ _
    · split <;> exact h

/-! ## Turns -/

/-- What a draft has of the source up to byte `pos`. -/
structure Draft.Holds (source : List Char) (pos : Nat) (d : Draft) : Prop where
  describes : d.document.Describes source
  stop_le : ∀ b ∈ d.document.allBlocks, b.outer.stop ≤ pos
  errors_fit : ∀ e ∈ d.templateErrors, e.span.Fits source

variable {source : List Char} {pos : Nat} {r : Reader} {d : Draft}

theorem Draft.Holds.mono {pos' : Nat} (h : d.Holds source pos) (hle : pos ≤ pos') : d.Holds source pos' :=
  ⟨h.describes, fun b hb => le_trans (h.stop_le b hb) hle, h.errors_fit⟩

/-- The texts of comments are no blocks. -/
theorem Draft.Holds.comment (h : d.Holds source pos) (data : String) :
    ({ d with document := { d.document with comments := d.document.comments ++ [data] } } : Draft).Holds source pos :=
  ⟨⟨h.describes.source_eq, h.describes.blocks_describe, h.describes.blocks_apart, h.describes.styles_inOrder,
    h.describes.customBlocks_inOrder⟩, h.stop_le, h.errors_fit⟩

/-- A block that starts no earlier than what a draft has joins it. -/
theorem Draft.Holds.addBlock {stop : Nat} {b : Block} (h : d.Holds source pos) (r : Reader) (t : Reader.StartTag)
    (hb : b.Describes source) (hstart : pos ≤ b.outer.start) (hstop : b.outer.stop = stop) : (addBlock d r t b).1.Holds source stop := by
  obtain ⟨name, hadds⟩ := addBlock_adds d r t b
  have hle := hb.outer_fits.le
  refine ⟨hadds.describes h.describes (hb.rename name) ?_, ?_, addBlock_errors_fit r t hb h.errors_fit⟩
  · intro a ha
    exact le_trans (h.stop_le a ha) hstart
  · obtain ⟨front, old, back, hold, hnew⟩ := hadds.allBlocks_eq
    intro a ha
    have hkept : a ∈ d.document.allBlocks → a.outer.stop ≤ stop := by
      intro ha'
      have := h.stop_le a ha'
      omega
    rw [hnew, List.mem_append, List.mem_cons] at ha
    rw [hold] at hkept
    rcases ha with ha | rfl | ha
    · exact hkept (List.mem_append_left _ ha)
    · exact hstop.le
    · exact hkept (List.mem_append_right _ (List.mem_append_right _ ha))

/-- Splitting goes on: a turn leads to a place further on, with what the draft has by then. -/
def GoesOn (source : List Char) (pos : Nat) (d : Draft) (r : Reader) : Prop :=
  ∃ d' r' pos', pos < pos' ∧ r'.Stands source pos' ∧ d'.Holds source pos' ∧ ∀ fuel, blocks (fuel + 1) d r = blocks fuel d' r'

/-- A turn at an opening tag takes its block. -/
theorem goesOn_of_atTagOpen (h : r.Stands source pos) (hd : d.Holds source pos) (ho : r.atTagOpen = true) : GoesOn source pos d r := by
  obtain ⟨hblock, hle, hlt⟩ := blockHere_describes h ho
  have hstands := addBlock_stands d (blockHere r) (behindBlock_stands h ho) (Reader.takesTag h ho).fits
  have hholds := hd.addBlock (behindBlock r) r.startTag.1 hblock hle rfl
  exact ⟨_, _, _, Nat.lt_of_le_of_lt hle hlt, hstands, hholds, blocks_of_atTagOpen h ho d⟩

/-- A turn ends at the end of the file, or splitting goes on. -/
theorem blocks_step (h : r.Stands source pos) (hd : d.Holds source pos) :
    (r.kind = .eof ∧ ∀ fuel, blocks (fuel + 1) d r = (d, r)) ∨ GoesOn source pos d r := by
  -- Where no tag opens, whatever stands here is a text.
  have htext : r.kind ≠ .eof → (r.atTagOpen = false → ∀ fuel, blocks (fuel + 1) d r = blocks fuel d r.text.2) →
      GoesOn source pos d r := by
    intro hk heq
    cases ho : r.atTagOpen with
    | true => exact goesOn_of_atTagOpen h hd ho
    | false =>
      have hyields := Reader.yields_text h hk
      exact ⟨d, _, _, hyields.lt, hyields.stands, hd.mono hyields.lt.le, heq ho⟩
  cases hk : r.kind with
  | eof => exact .inl ⟨rfl, fun fuel => by rw [blocks, hk]⟩
  | angleSlash =>
    obtain ⟨hstands, hstart, hstop⟩ := Reader.skipClosingTag_stands h hk
    have hle := h.le_start
    refine .inr ⟨d, _, r.skipClosingTag.1.stop, by omega,
      hstands.errorAt (.strayClosingTag r.closingName) (Reader.skipClosingTag_fits h hk), hd.mono (by omega), fun fuel => ?_⟩
    rw [blocks, hk]
  | commentOpen =>
    have hyields := Reader.yields_comment h hk
    refine .inr ⟨_, _, _, hyields.lt, hyields.stands, (hd.comment r.comment.2.1).mono hyields.lt.le, fun fuel => ?_⟩
    rw [blocks, hk]
  | mustacheOpen | angle | close | slashClose | slash | equals | doubleQuote | singleQuote | mustacheClose | brace | newline | name =>
    refine .inr (htext (by rw [hk]; decide) fun ho fuel => ?_)
    rw [blocks, hk]
    simp only [ho]
    rfl

/-! ## Runs -/

/-- Splitting keeps what a draft has, from wherever the reader stands. -/
theorem blocks_holds (fuel : Nat) (h : r.Stands source pos) (hd : d.Holds source pos) :
    ∃ pos', (blocks fuel d r).2.Stands source pos' ∧ (blocks fuel d r).1.Holds source pos' := by
  induction fuel generalizing r pos d with
  | zero => exact ⟨pos, h, hd⟩
  | succ fuel ih =>
    rcases blocks_step h hd with ⟨-, hend⟩ | ⟨d', r', pos', -, hr', hd', hstep⟩
    · rw [hend]
      exact ⟨pos, h, hd⟩
    · rw [hstep]
      exact ih hr' hd'

/-- With a bound that is more than the bytes that are left, splitting goes on to the end of the file. -/
theorem kind_blocks {fuel : Nat} (h : r.Stands source pos) (hd : d.Holds source pos) (hfuel : Text.size source < pos + fuel) :
    (blocks fuel d r).2.kind = .eof := by
  induction fuel generalizing r pos d with
  | zero =>
    have := h.isPlace.le_size
    omega
  | succ fuel ih =>
    rcases blocks_step h hd with ⟨hk, hend⟩ | ⟨d', r', pos', hlt, hr', hd', hstep⟩
    · rw [hend]
      exact hk
    · rw [hstep]
      exact ih hr' hd' (by omega)

/-- A bound that is more than the bytes that are left does not matter. -/
theorem blocks_enough {fuel fuel' : Nat} (h : r.Stands source pos) (hd : d.Holds source pos) (hfuel : Text.size source < pos + fuel)
    (hfuel' : Text.size source < pos + fuel') : blocks fuel d r = blocks fuel' d r := by
  have hplace := h.isPlace.le_size
  induction fuel generalizing r pos d fuel' with
  | zero => omega
  | succ fuel ih =>
    obtain ⟨fuel', rfl⟩ : ∃ k, fuel' = k + 1 := ⟨fuel' - 1, by omega⟩
    rcases blocks_step h hd with ⟨-, hend⟩ | ⟨d', r', pos', hlt, hr', hd', hstep⟩
    · rw [hend, hend]
    · rw [hstep, hstep]
      exact ih hr' hd' (by omega) (by omega) hr'.isPlace.le_size

end Document

end TypedSfc
