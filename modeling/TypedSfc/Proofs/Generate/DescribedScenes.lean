import TypedSfc.Proofs.Document.Bindings
import TypedSfc.Proofs.Document.Partition
import TypedSfc.Proofs.Generate.DescribedNodes
import TypedSfc.Proofs.Generate.Scenes

/-!
# What styles and scripts map

What a style is bound to and the names of its classes stand in the style. What a scene takes from a script is a part of it, an end, or a
name in it; the type parameters and the path of another file stand in the document.
-/

namespace TypedSfc

variable {S : Sense} {texts : SourceId → List Char} {listens : String → Prop}

namespace Generate

variable {r : Setting} {e : Option Effect}

/-! ## Styles -/

/-- A style whose content is that of its source, with what was found in it. -/
structure StyleFits (texts : SourceId → List Char) (s : StyleBlock × Nat) : Prop where
  content_eq : texts (SourceId.style s.2) = s.1.block.content.toList
  bindings_eq : s.1.bindings = Stylesheet.bindings s.1.block.content
  classNames_eq : s.1.classNames = Stylesheet.classNames s.1.block.content

theorem puts_classPart {source : SourceId} {x : StyleRef}
    (h : ∀ name, x.text.toList = '.' :: name → S.has (texts source) (x.offset + 1) name) :
    Puts (.ofSense S texts listens) r e (classPart source x) := by
  unfold classPart
  split
  · rename_i name hname
    exact .text (.andThen (puts_mapped (Permit.allows_of_has (h name hname)) rfl) fun _ => puts_text _)
  · exact puts_pure ()

theorem puts_moduleMember {s : StyleBlock × Nat} (h : StyleFits texts s) :
    Puts (.ofSense S texts listens) r e (moduleMember s) := by
  unfold moduleMember
  split
  · exact puts_pure ()
  · refine .text (.andThen gives_read.puts fun _ => Puts.whenever (puts_text _) ?_)
    refine .text (.andThen (puts_forM fun x hx => ?_) fun _ => puts_text _)
    refine puts_classPart fun name hname => ?_
    rw [h.content_eq]
    exact S.has_of_standsAt (Stylesheet.classNames_stand _ x (h.classNames_eq ▸ hx) name hname)

theorem puts_styleBindings (hr : S.Reads r.reader) {s : StyleBlock × Nat} (h : StyleFits texts s) :
    Puts (.ofSense S texts listens) r e (styleBindings s) := by
  refine puts_forM fun b hb => ?_
  have hstands := Stylesheet.bindings_stand s.1.block.content b (h.bindings_eq ▸ hb)
  rw [← h.content_eq] at hstands
  refine .andThen (puts_expressionIn_ofSense hr (S.has_of_standsAt hstands) rfl (by simp [Text.IsPunct, Text.isPunct])) fun _ => ?_
  exact puts_text _

/-- Styles map what stands in them. -/
theorem puts_styles (hr : S.Reads r.reader) {ss : List StyleBlock} (h : ∀ s ∈ ss.zipIdx, StyleFits texts s) :
    Puts (.ofSense S texts listens) r e (styles ss) := by
  refine .andThen gives_read.puts fun _ => ?_
  refine Surrounds.puts (surrounds_inScope surrounds_inner) ?_
  refine .andThen (puts_declare _) fun _ => .andThen ?_ fun _ => puts_forM fun s hs => puts_styleBindings hr (h s hs)
  refine .ite (fun _ => ?_) fun _ => puts_pure ()
  exact .andThen (puts_noteType _) fun _ => .text (.andThen (puts_forM fun s hs => puts_moduleMember (h s hs)) fun _ => puts_text _)

end Generate

/-! ## Scripts -/

/-- A part of a text stands where it is said to be. -/
theorem standsAt_of_slice_isEmpty {content : String} {s : Span} (h : ((s.slice content).getD "").isEmpty = false) :
    Text.StandsAt content.toList s.start ((s.slice content).getD "").toList := by
  unfold Span.slice at h ⊢
  cases hslice : Text.slice s.start s.stop content.toList with
  | none =>
    rw [hslice] at h
    cases h
  | some t =>
    show Text.StandsAt _ _ (String.ofList t).toList
    rw [String.toList_ofList]
    exact (Text.standsAt_of_slice hslice).1

section

variable {source : SourceId} {content : String} (hcontent : texts source = content.toList)

include hcontent

theorem outer_copied (s : Span) : (Generate.Piece.copied ((s.slice content).getD "") source s.start).Outer (.ofSense S texts listens) := by
  intro hempty
  have hstands := S.has_of_standsAt (standsAt_of_slice_isEmpty hempty)
  rw [← hcontent] at hstands
  exact .inr (.inl hstands)

variable (S listens) in
/-- The two ends of a text are places of it. -/
theorem allows_ends : (Permit.ofSense S texts listens).allows "" source 0 ∧
    (Permit.ofSense S texts listens).allows "" source content.utf8ByteSize := by
  have hstart := Text.isPlace_zero (texts source)
  have hstop := Text.isPlace_size (texts source)
  rw [congrArg Text.size hcontent, Text.size_toList] at hstop
  exact ⟨Permit.allows_place hstart, Permit.allows_place hstop⟩

end

/-- A plain script fits, if the path that it names is in the document as it is imported. -/
theorem PlainScript.fits_ofSense {p : PlainScript} (hcontent : texts SourceId.script = p.block.content.toList)
    (hpath : ∀ path offset, Generate.Scene.source? p = some (path, offset) →
      S.has (texts SourceId.document) offset path.toList ∧ S.has (texts SourceId.document) offset (Generate.Scene.importPath path).toList) :
    p.Fits (.ofSense S texts listens) := by
  obtain ⟨hstart, hstop⟩ := allows_ends S listens hcontent
  refine ⟨fun s => outer_copied hcontent s, hstart, hstop, fun path offset h => ?_⟩
  obtain ⟨hhas, himport⟩ := hpath path offset h
  have hend := S.has_stop hhas
  rw [Text.size_toList] at hend
  exact ⟨Permit.allows_of_has (S.has_start hhas), .inr (.inl himport), Permit.allows_of_has hend⟩

/-- A setup script fits as it was read, if its type parameters are in the document. -/
theorem SetupScript.fits_ofSense {reader : Script.Reader} (hr : S.Reads reader) {b : Block} (o : Options)
    (hcontent : texts SourceId.scriptSetup = b.content.toList)
    (hgeneric : ∀ t offset quoted, b.attr? "generic" = some (.value t offset quoted) → S.has (texts SourceId.document) offset t.toList) :
    (SetupScript.ofModule o b (reader b.content b.lang)).Fits (.ofSense S texts listens) := by
  obtain ⟨hstart, hstop⟩ := allows_ends S listens hcontent
  refine ⟨fun s => outer_copied hcontent s, hstart, hstop, fun c hc => ?_, fun g hg => ?_⟩
  · obtain ⟨i, hi, hcallee⟩ := Script.Module.setup_cssModules _ _ _ _ c hc
    obtain ⟨hhas, -, -⟩ := hr.names b.content b.lang i hi
    rw [← hcontent] at hhas
    have hend := S.has_stop hhas
    rw [Text.size_toList] at hend
    rw [hcallee]
    exact ⟨Permit.allows_of_has (S.has_start hhas), Permit.allows_of_has hend⟩
  · cases g with
    | flag => simp [Generate.Scene.typeParameters]
    | value t offset quoted =>
      have hallows : (Permit.ofSense S texts listens).allows t SourceId.document offset := .inr (.inl (hgeneric t offset quoted hg))
      dsimp only [Generate.Scene.typeParameters]
      split <;> simp [hallows]

end TypedSfc
