import TypedSfc.Proofs.Document.TemplateClose
import TypedSfc.Proofs.Markup.Template

/-!
# Blocks describe their source

The content of a block lies between its tags: behind the opening tag, up to the place where the closing tag was found, or to the end of
the source without one. The reader is brought behind the block, so that the next one starts no earlier than this one ends.
-/

namespace TypedSfc

open Markup

/-- A value of a block attribute stands at its offset, without its quotes. -/
def BlockAttr.Describes (source : List Char) : BlockAttr → Prop
  | .flag => True
  | .value text offset _ => Text.StandsAt source offset text.toList

/-- A block lies in the source, its content is what the source has there, and so are the values of its attributes. -/
structure Block.Describes (source : List Char) (b : Block) : Prop where
  outer_fits : b.outer.Fits source
  content_reads : b.inner.Reads source b.content.toList
  start_le : b.outer.start ≤ b.inner.start
  le_stop : b.inner.stop ≤ b.outer.stop
  attrs_describe : ∀ a ∈ b.attrs, a.2.Describes source

/-- The name of a block is no part of the source. -/
theorem Block.Describes.rename {source : List Char} {b : Block} (h : b.Describes source) (name : String) :
    ({ b with name := name } : Block).Describes source :=
  ⟨h.outer_fits, h.content_reads, h.start_le, h.le_stop, h.attrs_describe⟩

namespace Document

variable {source : List Char} {pos : Nat} {r : Reader}

/-! ## Attributes -/

theorem mem_setAttr {name : String} {v : BlockAttr} {as : List (String × BlockAttr)} {a : String × BlockAttr}
    (h : a ∈ setAttr name v as) : a.2 = v ∨ a ∈ as := by
  induction as with
  | nil =>
    rw [setAttr, List.mem_singleton] at h
    exact .inl (congrArg Prod.snd h)
  | cons b as ih =>
    rw [setAttr] at h
    split at h
    · rcases List.mem_cons.1 h with rfl | h
      · exact .inl rfl
      · exact .inr (List.mem_cons_of_mem b h)
    · rcases List.mem_cons.1 h with rfl | h
      · exact .inr (List.mem_cons_self ..)
      · rcases ih h with h | h
        · exact .inl h
        · exact .inr (List.mem_cons_of_mem b h)

/-- The attributes of a block describe the source when those of its tag do. -/
theorem blockAttrs_describe {as : List RawAttribute} (has : ∀ a ∈ as, a.Describes source) :
    ∀ b ∈ blockAttrs as, b.2.Describes source := by
  unfold blockAttrs
  refine List.foldlRecOn (motive := fun acc : List (String × BlockAttr) => ∀ b ∈ acc, b.2.Describes source) _ _ (by simp) ?_
  intro acc hacc a ha b hb
  rcases mem_setAttr hb with hv | hb
  · rw [hv]
    split
    · rename_i v hvalue
      exact (has a ha).value_describes v hvalue
    · trivial
  · exact hacc b hb

/-! ## Contents -/

/-- Behind an opening tag that has its end, the closing tag is found at its two marks. -/
theorem exists_of_findClose {t : Reader.StartTag} {r' : Reader} {close : Nat} (h : Reader.TakesTag source pos t r')
    (hopen : (t.selfClosing || !t.terminated) = false) (hfind : findClose source t.tag t.stop = some close) :
    t.stop ≤ close ∧ ∃ more, Text.Rest source close ('<' :: '/' :: more) := by
  rw [Bool.or_eq_false_iff, Bool.not_eq_false'] at hopen
  obtain ⟨before, rest, hsource, hstop⟩ := h.ends_with hopen.2 hopen.1
  have hrest : Text.Rest source t.stop rest := by
    refine ⟨before ++ ['>'], ?_, ?_⟩
    · rw [hsource, List.append_assoc]
      rfl
    · rw [Text.size_append]
      exact hstop
  obtain ⟨mid, more, rfl, rfl⟩ : ∃ mid more, rest = mid ++ '<' :: '/' :: more ∧ close = t.stop + Text.size mid := by
    unfold findClose at hfind
    split at hfind
    · exact exists_of_findTemplateClose hsource hstop hfind
    · rw [hrest.after_eq] at hfind
      obtain ⟨n, hn, rfl⟩ := Option.map_eq_some_iff.1 hfind
      obtain ⟨mid, behind, rfl, rfl, more, hmore⟩ := Text.exists_of_find_lower hn
      obtain ⟨behind, rfl, hslash⟩ := Text.exists_of_lower_cons (by decide) hmore
      obtain ⟨behind', rfl, -⟩ := Text.exists_of_lower_cons (by decide) hslash
      exact ⟨mid, behind', rfl, rfl⟩
  exact ⟨Nat.le_add_right .., more, hrest.step⟩

/-- The content of a block lies between the start of its tag and its end, where the reader stands. -/
structure Encloses (source : List Char) (t : Reader.StartTag) (inner : Span) (stop : Nat) (r : Reader) : Prop where
  inner_fits : inner.Fits source
  start_le : t.start ≤ inner.start
  le_stop : inner.stop ≤ stop
  tag_le : t.stop ≤ stop
  stands : r.Stands source stop

theorem extent_encloses {t : Reader.StartTag} {r' : Reader} (h : Reader.TakesTag source pos t r') :
    Encloses source t (extent r' t).1 (extent r' t).2.1 (extent r' t).2.2 := by
  have hlt := h.start_lt
  have hplace := h.stands.isPlace
  unfold extent
  split
  · exact ⟨⟨h.start_isPlace, h.start_isPlace, Nat.le_refl _⟩, Nat.le_refl _, hlt.le, Nat.le_refl _, h.stands⟩
  · rename_i hopen
    rw [Bool.not_eq_true] at hopen
    rw [h.stands.source_eq]
    split
    · rename_i close hfind
      obtain ⟨hle, more, hmore⟩ := exists_of_findClose h hopen hfind
      have hsync : (r'.sync close).Stands source close := h.stands.sync hmore.isPlace hle
      -- At the place that was found, the reader faces the two marks.
      obtain ⟨own, behind, -, hf, hstart⟩ := hsync.faces_of_rest hmore rfl
      obtain ⟨hstands, -, hstop⟩ := Reader.skipClosingTag_stands hsync hf.kind_eq
      refine ⟨⟨hplace, hmore.isPlace, hle⟩, hlt.le, ?_, ?_, hstands⟩
      · show close ≤ (r'.sync close).skipClosingTag.1.stop
        omega
      · show t.stop ≤ (r'.sync close).skipClosingTag.1.stop
        omega
    · have hle := hplace.le_size
      have hend := Text.isPlace_size source
      rw [h.stands.size_eq]
      exact ⟨⟨hplace, hend, hle⟩, hlt.le, Nat.le_refl _, hle, (h.stands.errorAt _ h.fits).sync hend hle⟩

/-! ## The block here -/

/-- The block whose opening tag is here. -/
def blockHere (r : Reader) : Block :=
  blockOf r.source r.startTag.1 (extent r.startTag.2 r.startTag.1).1 (extent r.startTag.2 r.startTag.1).2.1

/-- The reader behind the block here. -/
def behindBlock (r : Reader) : Reader := (extent r.startTag.2 r.startTag.1).2.2

theorem behindBlock_stands (h : r.Stands source pos) (ho : r.atTagOpen = true) :
    (behindBlock r).Stands source (blockHere r).outer.stop := (extent_encloses (Reader.takesTag h ho)).stands

/-- The block of an opening tag starts with the tag, ends no earlier, and describes the source. -/
theorem blockHere_describes (h : r.Stands source pos) (ho : r.atTagOpen = true) :
    (blockHere r).Describes source ∧ pos ≤ (blockHere r).outer.start ∧ (blockHere r).outer.start < (blockHere r).outer.stop := by
  have htag := Reader.takesTag h ho
  have hencloses := extent_encloses htag
  have hlt : r.startTag.1.start < (blockHere r).outer.stop := Nat.lt_of_lt_of_le htag.start_lt hencloses.tag_le
  obtain ⟨content, hreads⟩ := hencloses.inner_fits.exists_reads
  refine ⟨⟨⟨htag.start_isPlace, hencloses.stands.isPlace, hlt.le⟩, ?_, hencloses.start_le, hencloses.le_stop, ?_⟩, htag.le_start, hlt⟩
  · unfold blockHere blockOf
    rw [h.source_eq]
    dsimp only
    rw [String.toList_ofList, hreads.between_eq]
    exact hreads
  · exact blockAttrs_describe fun a ha => (htag.attributes_between a ha).1

/-- A turn at an opening tag adds its block. -/
theorem blocks_of_atTagOpen (h : r.Stands source pos) (ho : r.atTagOpen = true) (d : Draft) (fuel : Nat) :
    blocks (fuel + 1) d r = blocks fuel (addBlock d (behindBlock r) r.startTag.1 (blockHere r)).1
      (addBlock d (behindBlock r) r.startTag.1 (blockHere r)).2 := by
  have hk : r.kind = .angle := by
    rw [Reader.atTagOpen, Bool.and_eq_true, Bool.and_eq_true, beq_iff_eq] at ho
    exact ho.1.1
  have hsource : (behindBlock r).source = r.source := (behindBlock_stands h ho).source_eq.trans h.source_eq.symm
  rw [blocks, hk]
  simp only [ho, if_true]
  unfold blockHere
  rw [← hsource]
  rfl

end Document

end TypedSfc
