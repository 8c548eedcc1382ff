import TypedSfc.File
import TypedSfc.Proofs.Generate.Nodes
import TypedSfc.Proofs.Generate.ResolvedTemplates
import TypedSfc.Proofs.Generate.Scenes
import TypedSfc.Proofs.Mapping.Build
import TypedSfc.Proofs.Mapping.Verify

/-!
# The typed file of a document

The code of a document is put together from three buffers: that of the template, that of the styles, which goes on from it, and that of
the scripts, in which both stand once. Their groups have tokens of their own, so the whole stream is grouped, the map is made of it, and
the map passes its check. So a document has a typed file unless the program breaks down before: expressions are cut at their free names,
and a name that is spelled with an escape may end within a character of its spelling.

The scripts themselves are cut at the places that their reader states, which are those of whole characters.
-/

namespace TypedSfc

open Segment

namespace TypedFile

open Generate (DeclaredKey Scene Setting State Told Use Written stylesUses)

variable {n : Nat}

/-- Whether a buffer holds whole groups of known sources, and nothing else. -/
def Complete (n : Nat) (c : Code) : Prop := Wrote n [] [] 0 c.segments c.nextToken

theorem complete_empty : Complete n {} := .stop [] (Nat.le_refl 0)

/-- What a step that holds nothing makes of an empty buffer. -/
theorem Complete.ofAdds {c : Code} (h : Code.Adds n [] [] {} c) : Complete n c := by
  obtain ⟨ss, hss, hw⟩ := h (.nil n 0)
  rw [List.nil_append] at hss
  unfold Complete
  rw [hss]
  exact hw

/-- A buffer that goes on from another, behind it. -/
theorem Complete.append {c other : Code} (hc : Complete n c) (h : Code.Adds n [] [] c.continueFrom other) :
    Complete n (c.append other) := by
  obtain ⟨ss, hss, hw⟩ := h (.nil n _)
  rw [show c.continueFrom.segments = [] from rfl, List.nil_append] at hss
  have hnext : (c.append other).nextToken = other.nextToken := Nat.max_eq_right hw.le
  unfold Complete
  rw [hnext]
  show Wrote n [] [] 0 (c.segments ++ other.segments) other.nextToken
  rw [hss]
  exact hw.append (.nil n 0) hc

/-- The code of the template and the styles. -/
theorem complete_inner (s : Setting) (d : Document) : Complete (4 + d.styles.length) (Inner.ofDocument s d).code := by
  unfold Inner.ofDocument
  split
  · exact complete_empty
  · have htemplate : Complete (4 + d.styles.length) (Inner.withTemplate {} s d).code := by
      unfold Inner.withTemplate
      split
      · exact complete_empty
      · exact .ofAdds (Generate.adds_ofTemplate s _ _ {})
    unfold Inner.withStyles
    split
    · exact htemplate
    · exact htemplate.append (Generate.adds_ofStyles s d.styles _)

/-- The code of the scripts, with the code of the template and the styles in it. -/
theorem complete_write (s : Scene) {inner : Code} (h : Complete (4 + n) inner) : Complete (4 + n) (s.write inner).code := by
  have hadds : Code.Adds (4 + n) [] inner.segments inner.continueFrom (s.write inner).code :=
    .before ((Scene.around_pieces s.fits_below).adds inner) (Code.adds_text _ _)
  have hheld : Held (4 + n) [] [] 0 := .nil _ _
  obtain ⟨ss, hss, hw⟩ := hadds (hheld.keep h)
  rw [show inner.continueFrom.segments = [] from rfl, List.nil_append] at hss
  unfold Complete
  rw [hss]
  exact hw.release hheld h

/-- The segments of the code of a document are grouped and name known sources. -/
theorem grouped_and_known (reader : Script.Reader) (o : Options) (filename : Option String) (d : Document) :
    Grouped (Draft.ofDocument reader o filename d).segments ∧
      Known (bases d).length (Draft.ofDocument reader o filename d).segments := by
  have hlength : (bases d).length = 4 + d.styles.length := by
    simp only [bases, List.length_append, List.length_cons, List.length_nil, List.length_map]
  have hcomplete : Complete (4 + d.styles.length) (Draft.ofDocument reader o filename d).whole.code :=
    complete_write _ (complete_inner _ d)
  exact ⟨hcomplete.grouped, hlength ▸ hcomplete.known⟩

/-! ## The map -/

/-- What is drafted is made into a file with the map that is finished from its segments, unless a text was to be cut where no character
starts. -/
theorem ofDraft_of_finish {d : Document} {r : Draft} {code : String} {map : SourceMap}
    (hfinish : ((Builder.new (bases d)).pushAll r.segments).finish = .ok (code, map)) :
    map.verify code.utf8ByteSize = .ok () ∧
      if r.inner.isCut then ofDraft d r = .error .cut
      else ∃ f, ofDraft d r = .ok f ∧ f.code = code ∧ f.map = map ∧ f.exposed = r.exposed := by
  have hverify := Builder.verify_of_finish hfinish
  refine ⟨hverify, ?_⟩
  unfold ofDraft
  cases r.inner.isCut with
  | true => exact rfl
  | false =>
    rw [hfinish]
    simp only [ofMapping, Except.mapError, bind, Except.bind, hverify, pure, Except.pure, Bool.false_eq_true, if_false]
    exact ⟨_, rfl, rfl, rfl, rfl⟩

/-! ## What is told and what is used -/

/-- What the code around the template of a document is made from. -/
def sceneOf (reader : Script.Reader) (o : Options) (filename : Option String) (d : Document) : Scene :=
  let draft := Draft.ofDocument reader o filename d
  let o := o.withComments d.comments
  ⟨o, draft.plain.map fun r => PlainScript.ofModule o r.block r.module, draft.setup.map fun r => SetupScript.ofModule o r.block r.module,
    draft.inner.types, draft.exposed⟩

/-- What the generator of the template of a document is told. -/
def templateSetting (r : Setting) (d : Document) : Setting := r.withTemplate ((d.template.map (·.content)).getD "") d.fragment

/-- The uses of the template of a document, if it has one and its code is wanted. -/
def templateUsesOf (r : Setting) (d : Document) : List Use :=
  if r.options.flag .skipTemplateCodegen || d.template.isNone then [] else Generate.templateUses (templateSetting r d) d.fragment

/-- The uses of the styles of a document, if their code is wanted. -/
def styleUsesOf (r : Setting) (d : Document) : List Use :=
  if r.options.flag .skipTemplateCodegen then [] else stylesUses r d.styles

/-- The code of the template and the styles is cut where no character starts if and only if one of the uses in it is. -/
theorem isCut_inner (r : Setting) (d : Document) : ∃ keys : List Use, (∀ u ∈ keys, DeclaredKey (templateSetting r d) u) ∧
    (Inner.ofDocument r d).isCut =
      ((templateUsesOf r d ++ keys).any (·.isCut (templateSetting r d)) || (styleUsesOf r d).any (·.isCut r)) := by
  unfold templateUsesOf styleUsesOf Inner.ofDocument
  cases r.options.flag .skipTemplateCodegen with
  | true => exact ⟨[], by simp, rfl⟩
  | false =>
    have htemplate : ∃ keys : List Use, (∀ u ∈ keys, DeclaredKey (templateSetting r d) u) ∧ (Inner.withTemplate {} r d).isCut =
        ((if d.template.isNone then [] else Generate.templateUses (templateSetting r d) d.fragment) ++ keys).any
          (·.isCut (templateSetting r d)) := by
      unfold Inner.withTemplate templateSetting
      cases d.template with
      | none => exact ⟨[], by simp, rfl⟩
      | some b =>
        obtain ⟨keys, hkeys, htold⟩ := Generate.told_template r b.content d.fragment {}
        exact ⟨keys, hkeys, htold.isCut_eq.trans (Bool.or_false _)⟩
    obtain ⟨keys, hkeys, hcut⟩ := htemplate
    refine ⟨keys, hkeys, ?_⟩
    simp only [Bool.false_or, Bool.false_eq_true, if_false]
    unfold Inner.withStyles
    rw [← hcut]
    cases hstyles : d.styles with
    | nil => exact (Bool.or_false _).symm
    | cons s ss =>
      have htold := Generate.told_styles r (s :: ss) (Inner.withTemplate {} r d).code.continueFrom
      exact congrArg (_ || ·) (htold.isCut_eq.trans (Bool.or_false _))

/-! ## The file -/

theorem ofDocumentBy_of_isCut {reader : Script.Reader} {o : Options} {filename : Option String} {d : Document}
    (h : (Draft.ofDocument reader o filename d).inner.isCut = true) : ofDocumentBy reader o filename d = .error .cut := by
  unfold ofDocumentBy ofDraft
  rw [h]
  rfl

/-- A document whose template reads a name that begins with an escape. -/
def escapedName : Document := (Document.split "<template>\x7b\x7b \\u0061ééé \x7d\x7d</template>").1

theorem isCut_escapedName : (Draft.ofDocument Script.Module.read default none escapedName).inner.isCut = true := by decide +kernel

/-- A typed file has the code of its draft, the map of its segments, and the names that it exposes. -/
theorem of_ofDocumentBy_ok {reader : Script.Reader} {o : Options} {filename : Option String} {d : Document} {f : TypedFile}
    (hf : ofDocumentBy reader o filename d = .ok f) :
    f.code = (Draft.ofDocument reader o filename d).whole.code.toText ∧
      f.map = ⟨entriesOf (bases d) (Draft.ofDocument reader o filename d).segments⟩ ∧
      f.exposed = (Draft.ofDocument reader o filename d).exposed := by
  obtain ⟨hgrouped, hknown⟩ := grouped_and_known reader o filename d
  obtain ⟨-, hfile⟩ := ofDraft_of_finish (Builder.finish_of_grouped hknown hgrouped)
  unfold ofDocumentBy at hf
  split at hfile
  · rw [hfile] at hf
    cases hf
  · obtain ⟨f', hf', hcode, hmap, hexposed⟩ := hfile
    obtain rfl : f' = f := Except.ok.inj (hf'.symm.trans hf)
    exact ⟨hcode.trans (contents_eq_join _).symm, hmap, hexposed⟩

end TypedFile

end TypedSfc
