import TypedSfc.Proofs.Generate.DescribedScenes
import TypedSfc.Proofs.Generate.PermittedTemplates
import TypedSfc.Proofs.TypedFile

/-!
# What is mapped is in its source

The code of a document maps what is at a place of the source that it names, in any sense in which the scripts are read, so long as the
directives of the template suit that sense. The template, the styles and the scripts are each written within the permit of the sense,
and putting them together maps nothing more.
-/

namespace TypedSfc

open Markup (Directive Property nodeHeads parseTemplate)

/-- Whether a permit allows what a segment maps. -/
def Permit.Maps (P : Permit) : Segment → Prop
  | .text _ => True
  | .mapped t source offset _ => P.allows t source offset

theorem Permit.Admits.maps {P : Permit} {e : Option Effect} {a : Segment} (h : P.Admits e a) : P.Maps a := by
  cases a with
  | text t => trivial
  | mapped t source offset i => exact h.1

theorem Permit.AdmitsIn.maps {P : Permit} {fs : List Generate.Frame} {a : Segment} (h : P.AdmitsIn fs a) : P.Maps a := by
  cases a with
  | text t => trivial
  | mapped t source offset i => exact h.1

namespace Generate

/-- The names under which a listener with a fixed name is written: its argument, and the event that this names. -/
def listenerNames (x : Directive) : List String :=
  if x.name = "on" ∧ x.arg.any (·.isStatic) then x.arg.toList.map (·.content) ++ [(EventName.ofDirective x).event] else []

theorem of_mem_listenerNames {x : Directive} {Q : String → Prop} (h : ∀ n ∈ listenerNames x, Q n) (hon : x.name = "on") :
    ∀ a ∈ x.arg, a.isStatic = true → Q a.content ∧ Q (EventName.ofDirective x).event := by
  intro a ha hstatic
  have harg : x.arg = some a := ha
  have hnames : listenerNames x = [a.content, (EventName.ofDirective x).event] := by
    rw [listenerNames, if_pos ⟨hon, by simp [harg, hstatic]⟩, harg]
    rfl
  exact ⟨h _ (by simp [hnames]), h _ (by simp [hnames])⟩

end Generate

namespace Document

/-- The text of each source, in the order of their bases. -/
def texts (d : Document) : List String :=
  let content := fun (b : Option Block) => (b.map (·.content)).getD ""
  [d.source, content d.template, content d.script, content d.scriptSetup] ++ d.styles.map (·.block.content)

/-- The text of a source, empty if the document has no such source. -/
def textOf (d : Document) (source : SourceId) : List Char := (d.texts[source]?.getD "").toList

/-- The directives of the template. -/
def directives (d : Document) : List Directive :=
  ((d.fragment.map fun f => nodeHeads f.nodes).getD []).flatMap fun x => x.props.filterMap fun
    | .directive y => some y
    | .plain _ => none

variable {d : Document}

theorem mem_directives {f : Markup.Fragment} (hf : d.fragment = some f) {x : Markup.Element} (hx : x ∈ nodeHeads f.nodes)
    {y : Directive} (hy : Property.directive y ∈ x.props) : y ∈ d.directives := by
  unfold directives
  rw [hf]
  exact List.mem_flatMap.2 ⟨x, hx, List.mem_filterMap.2 ⟨_, hy, rfl⟩⟩

theorem textOf_document (d : Document) : d.textOf SourceId.document = d.source.toList := rfl

theorem textOf_template {b : Block} (h : d.template = some b) : d.textOf SourceId.template = b.content.toList := by
  simp [textOf, texts, SourceId.template, h]

theorem textOf_script {b : Block} (h : d.script = some b) : d.textOf SourceId.script = b.content.toList := by
  simp [textOf, texts, SourceId.script, h]

theorem textOf_scriptSetup {b : Block} (h : d.scriptSetup = some b) : d.textOf SourceId.scriptSetup = b.content.toList := by
  simp [textOf, texts, SourceId.scriptSetup, h]

theorem textOf_style {s : StyleBlock × Nat} (h : s ∈ d.styles.zipIdx) : d.textOf (SourceId.style s.2) = s.1.block.content.toList := by
  have hget : d.styles[s.2]? = some s.1 := List.mem_zipIdx_iff_getElem?.1 h
  have hindex : d.texts[SourceId.style s.2]? = some s.1.block.content := by
    rw [texts, SourceId.style, List.getElem?_append_right (by simp)]
    simp [hget]
  rw [textOf, hindex, Option.getD_some]

/-- The directives of a document are spelled in its template as they are kept. -/
theorem ReadsContents.spelled {errors : List Markup.ParseError} (h : d.ReadsContents errors) :
    ∀ x ∈ d.directives, x.Spelled (d.textOf SourceId.template) (errors = []) := by
  intro x hx
  unfold directives at hx
  cases hf : d.fragment with
  | none => simp [hf] at hx
  | some f =>
    rw [hf] at hx
    obtain ⟨e, he, hx⟩ := List.mem_flatMap.1 hx
    obtain ⟨p, hp, hx⟩ := List.mem_filterMap.1 hx
    obtain ⟨b, hb, rfl, hfaults⟩ := h.fragment_read f hf
    cases p with
    | plain a => cases hx
    | directive y =>
      obtain rfl := Option.some.inj hx
      obtain ⟨hexp, hlater, hclosed, hname, hmodifiers⟩ := (Markup.parseTemplate_read b.content e he).spelled hp
      rw [textOf_template hb]
      refine ⟨hexp, hlater, fun hnone => hclosed ?_, hname, hmodifiers⟩
      refine List.eq_nil_iff_forall_not_mem.2 fun fault hfault => ?_
      have hmem := hfaults fault hfault
      rw [hnone] at hmem
      cases hmem

end Document

namespace TypedFile

open Generate (Grown Scene Setting State)

variable {S : Sense} {listens : String → Prop} {reader : Script.Reader} {source : String} {d : Document} {errors : List Markup.ParseError}

/-! ## The template -/

/-- The code of a template maps what is in its content. -/
theorem maps_withTemplate (hr : S.Reads reader) (hl : ∀ t, listens t → S.Hears t) (hcontents : d.ReadsContents errors)
    (hsuits : ∀ x ∈ d.directives, x.Suits S listens (d.textOf SourceId.template)) {r : Setting} (hreader : r.reader = reader) :
    ∀ a ∈ (Inner.withTemplate {} r d).code.segments, (Permit.ofSense S d.textOf listens).Maps a := by
  unfold Inner.withTemplate
  split
  · simp
  · rename_i b hb
    have hP : (Permit.ofSense S d.textOf listens).Lawful (r.withTemplate b.content d.fragment) :=
      Permit.lawful_ofSense (hreader.symm ▸ hr) hl
    have hsource : (r.withTemplate b.content d.fragment).source = d.textOf SourceId.template := (Document.textOf_template hb).symm
    have hnodes : ∀ f ∈ d.fragment, ∀ n ∈ f.nodes,
        Generate.NodePermitted (.ofSense S d.textOf listens) (r.withTemplate b.content d.fragment).source n := by
      intro f hf
      obtain ⟨b', hb', rfl, -⟩ := hcontents.fragment_read f hf
      obtain rfl := Option.some.inj (hb.symm.trans hb')
      have hdescribes := Markup.describes_parseTemplate b.content
      rw [hsource]
      refine Generate.siblingsPermitted (Document.textOf_template hb ▸ hdescribes.nodes_describe) fun x hx hxd => ?_
      have hread := Markup.parseTemplate_read b.content x hx
      rw [← Document.textOf_template hb] at hread
      exact hxd.permitted hP hread fun y hy => hsuits y (Document.mem_directives hf hx hy)
    have hgrown := Generate.grown_template hP hnodes
    have hsound : State.Sound (.ofSense S d.textOf listens) ({ code := {} } : State) :=
      ⟨rfl, by simp [Generate.numbersOf], by simp [Generate.numbersOf], ⟨by simp, by simp, by simp⟩, by simp, by simp⟩
    obtain ⟨as, has, hadmits⟩ := (hgrown _ hsound).segments_eq
    intro a ha
    have hmem : a ∈ as := by
      have heq : (State.ofTemplate r b.content d.fragment {}).code.segments = [] ++ as := has
      rw [List.nil_append] at heq
      exact heq ▸ ha
    exact (hadmits a hmem).maps

/-! ## The styles -/

/-- The code of the styles maps what is in them. -/
theorem maps_ofStyles {r : Setting} (hr : S.Reads r.reader) (hcontents : d.ReadsContents errors) (c : Code) (hempty : c.segments = []) :
    ∀ a ∈ (State.ofStyles r d.styles c).code.segments, (Permit.ofSense S d.textOf listens).Maps a := by
  have hfit : ∀ s ∈ d.styles.zipIdx, Generate.StyleFits d.textOf s := by
    intro s hs
    obtain ⟨hbindings, hclasses⟩ := hcontents.styles_read s.1 (List.fst_mem_of_mem_zipIdx hs)
    exact ⟨Document.textOf_style hs, hbindings, hclasses⟩
  have hputs : Generate.Puts (.ofSense S d.textOf listens) r c.effect (Generate.styles d.styles) := Generate.puts_styles hr hfit
  obtain ⟨hextends, -, -⟩ := hputs { code := c } rfl ⟨by simp, by simp, by simp⟩
  obtain ⟨as, has, hadmits⟩ := hextends.code_extends.segments_eq
  intro a ha
  have heq : (State.ofStyles r d.styles c).code.segments = c.segments ++ as := has
  rw [hempty, List.nil_append] at heq
  exact (hadmits a (heq ▸ ha)).maps

theorem maps_inner (hr : S.Reads reader) (hl : ∀ t, listens t → S.Hears t) (hcontents : d.ReadsContents errors)
    (hsuits : ∀ x ∈ d.directives, x.Suits S listens (d.textOf SourceId.template)) {r : Setting} (hreader : r.reader = reader) :
    ∀ a ∈ (Inner.ofDocument r d).code.segments, (Permit.ofSense S d.textOf listens).Maps a := by
  unfold Inner.ofDocument
  split
  · simp
  · have htemplate := maps_withTemplate hr hl hcontents hsuits hreader
    unfold Inner.withStyles
    split
    · exact htemplate
    · intro a ha
      rcases List.mem_append.1 ha with ha | ha
      · exact htemplate a ha
      · exact maps_ofStyles (hreader.symm ▸ hr) hcontents _ rfl a ha

/-! ## The whole -/

/-- The values of the attributes of a block stand in the document. -/
theorem standsAt_of_attr? {b : Block} (hd : d.Describes source.toList) (hb : b ∈ d.allBlocks) {name t : String} {offset : Nat}
    {quoted : Bool} (h : b.attr? name = some (.value t offset quoted)) : Text.StandsAt (d.textOf SourceId.document) offset t.toList := by
  obtain ⟨a, ha, hvalue⟩ := Option.map_eq_some_iff.1 h
  have hdescribes := (hd.blocks_describe b hb).attrs_describe a (List.mem_of_find?_eq_some ha)
  rw [hvalue] at hdescribes
  rw [Document.textOf_document, hd.source_eq]
  exact hdescribes

/-- The scripts of a scene fit as they were read, if the path of the file that a script names is in the document as it is imported. -/
theorem fits_ofRead (hr : S.Reads reader) (hd : d.Describes source.toList)
    (hpath : ∀ b ∈ d.script, ∀ path offset quoted, b.attr? "src" = some (.value path offset quoted) →
      S.has (d.textOf SourceId.document) offset (Scene.importPath path).toList) (o : Options) {s : Scene}
    (hscript : s.script = (d.script.map (ReadScript.ofBlock reader)).map fun r => PlainScript.ofModule o r.block r.module)
    (hsetup : s.setup = (d.scriptSetup.map (ReadScript.ofBlock reader)).map fun r => SetupScript.ofModule o r.block r.module) :
    s.Fits (.ofSense S d.textOf listens) := by
  constructor
  · rw [hscript]
    intro p hp
    obtain ⟨r, hread, rfl⟩ := Option.map_eq_some_iff.1 hp
    obtain ⟨b, hb, rfl⟩ := Option.map_eq_some_iff.1 hread
    have hmem : b ∈ d.allBlocks := by simp [Document.allBlocks, hb]
    refine PlainScript.fits_ofSense (Document.textOf_script hb) fun path offset hsrc => ?_
    unfold Scene.source? at hsrc
    split at hsrc
    · rename_i path' offset' quoted hattr
      obtain ⟨rfl, rfl⟩ := Prod.mk.inj (Option.some.inj hsrc)
      exact ⟨S.has_of_standsAt (standsAt_of_attr? hd hmem hattr), hpath b hb _ _ _ hattr⟩
    · cases hsrc
  · rw [hsetup]
    intro q hq
    obtain ⟨r, hread, rfl⟩ := Option.map_eq_some_iff.1 hq
    obtain ⟨b, hb, rfl⟩ := Option.map_eq_some_iff.1 hread
    have hmem : b ∈ d.allBlocks := by simp [Document.allBlocks, hb]
    exact SetupScript.fits_ofSense hr _ (Document.textOf_scriptSetup hb) fun t offset quoted h =>
      S.has_of_standsAt (standsAt_of_attr? hd hmem h)

/-- Everything that the code of a document maps is in the source that it names, if the directives of the template suit the sense and the
path of the file that a script names does. -/
theorem maps_segments (hr : S.Reads reader) (hl : ∀ t, listens t → S.Hears t) (hd : d.Describes source.toList)
    (hcontents : d.ReadsContents errors) (hsuits : ∀ x ∈ d.directives, x.Suits S listens (d.textOf SourceId.template))
    (hpath : ∀ b ∈ d.script, ∀ path offset quoted, b.attr? "src" = some (.value path offset quoted) →
      S.has (d.textOf SourceId.document) offset (Scene.importPath path).toList) (o : Options) (filename : Option String) :
    ∀ a ∈ (Draft.ofDocument reader o filename d).segments, (Permit.ofSense S d.textOf listens).Maps a := by
  unfold Draft.segments Draft.ofDocument
  dsimp only
  generalize hinner : Inner.ofDocument _ d = inner
  have hmaps : ∀ a ∈ inner.code.segments, (Permit.ofSense S d.textOf listens).Maps a := by
    rw [← hinner]
    exact maps_inner hr hl hcontents hsuits rfl
  generalize hscene : Scene.mk _ _ _ _ _ = scene
  have hfits : scene.Fits (.ofSense S d.textOf listens) := by
    subst hscene
    exact fits_ofRead hr hd hpath (o.withComments d.comments) rfl rfl
  obtain ⟨as, has, hadmits⟩ := (Code.extends_text (P := .ofSense S d.textOf listens)
    (Generate.Written.ofPieces inner.code scene.pieces).code (HelperType.declarations scene.options.lib (Generate.Written.ofPieces inner.code scene.pieces).helpers)).segments_eq
  intro a ha
  have hmem : a ∈ (Generate.Written.ofPieces inner.code scene.pieces).code.segments ++ as := has ▸ ha
  rcases List.mem_append.1 hmem with hmem | hmem
  · rcases (Scene.around_pieces hfits).admits inner.code a hmem with hmem | hadmits
    · exact hmaps a hmem
    · exact hadmits.maps
  · exact (hadmits a hmem).maps

/-! ## A component with a slot -/

/-- A document whose template has a computed argument, a listener and a slot with a typed parameter. -/
def slotUse : String := "<template><C :[k]=\"a\" @x-y=\"f()\" #d=\"b: T\"/></template>"

/-- A reader of the scripts in this document. -/
def slotUseReader : Script.Reader := Sense.only ["[k]", "f()", "(b: T) => \x7b\x7d", ""] Script.Module.read

theorem reads_slotUse : Sense.verbatim.Reads slotUseReader := Sense.reads_only (by decide +kernel)

/-- It makes the code that reading all scripts makes. -/
theorem segments_slotUse : (Draft.ofDocument slotUseReader default none (Document.split slotUse).1).segments =
    (Draft.ofDocument Script.Module.read default none (Document.split slotUse).1).segments := by decide +kernel

end TypedFile

end TypedSfc
