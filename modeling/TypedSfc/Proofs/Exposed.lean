import TypedSfc.Proofs.Generate.ReadTemplates
import TypedSfc.Proofs.Generate.Shown
import TypedSfc.Proofs.Script.Bindings
import TypedSfc.Proofs.Statements

/-!
# What a template reads is exposed to it

The code of the template and the styles notes the names that it reads of the component. Those that a script binds are exposed: the file
lists them, and its code declares their types before the code of the template and merges them into the component.
-/

namespace TypedSfc

namespace TypedFile

open Generate (ReadsOnly Scene Setting State)
open Script (BindingForm)

variable {reader : Script.Reader} {o : Options} {filename : Option String} {d : Document} {x : String}

/-! ## The names that a document binds -/

/-- The names that the scripts of a document bind in a form at their top level, as they are spelled there. -/
def boundAs (reader : Script.Reader) (o : Options) (d : Document) (form : BindingForm) : List String :=
  (d.script.toList ++ d.scriptSetup.toList).flatMap fun b =>
    let bs := (reader b.content b.lang).binds b.content.toList (o.withComments d.comments).extensions
    (bs.filter fun x => x.1 == form).map fun x => b.textAt x.2.range

/-- The members of a list that is made of something optional. -/
theorem mem_getD_map {α β : Type} {y : β} {b? : Option α} {f : α → List β} : y ∈ (b?.map f).getD [] ↔ ∃ b ∈ b?, y ∈ f b := by
  cases b? <;> simp

/-- The names that are declared are those that the scripts bind in one of the forms that are collected. -/
theorem mem_declared_iff (filename : Option String) :
    x ∈ declared (sceneOf reader o filename d).script (sceneOf reader o filename d).setup ↔
      ∃ form : BindingForm, form.isCollected = true ∧ x ∈ boundAs reader o d form := by
  let extensions := (o.withComments d.comments).extensions
  have hnames (b : Block) : x ∈ namesAt b ((reader b.content b.lang).bindings b.content extensions).values ↔
      ∃ y ∈ (reader b.content b.lang).binds b.content.toList extensions, y.1.isCollected = true ∧ b.textAt y.2.range = x := by
    simp only [namesAt, Script.Module.values_bindings, Script.collected, List.map_map, List.mem_map, List.mem_filter, and_assoc,
      Function.comp_def]
  have hplain : x ∈ ((sceneOf reader o filename d).script.map fun p => namesAt p.block p.bindings.values).getD [] ↔
      ∃ b ∈ d.script, x ∈ namesAt b ((reader b.content b.lang).bindings b.content extensions).values := by
    show x ∈ (((d.script.map _).map _).map _).getD [] ↔ _
    rw [Option.map_map, Option.map_map, mem_getD_map]
    rfl
  have hsetup : x ∈ ((sceneOf reader o filename d).setup.map fun q => namesAt q.block q.setup.bindings.values).getD [] ↔
      ∃ b ∈ d.scriptSetup, x ∈ namesAt b ((reader b.content b.lang).bindings b.content extensions).values := by
    show x ∈ (((d.scriptSetup.map _).map _).map _).getD [] ↔ _
    rw [Option.map_map, Option.map_map, mem_getD_map]
    simp only [Function.comp_apply, ReadScript.ofBlock, SetupScript.ofModule, Script.Module.bindings_setup]
    rfl
  have hbound (form : BindingForm) : x ∈ boundAs reader o d form ↔ ∃ b, (b ∈ d.script ∨ b ∈ d.scriptSetup) ∧
      ∃ y ∈ (reader b.content b.lang).binds b.content.toList extensions, y.1 = form ∧ b.textAt y.2.range = x := by
    simp only [boundAs, List.mem_flatMap, List.mem_append, Option.mem_toList, Option.mem_def, List.mem_map, List.mem_filter, beq_iff_eq,
      and_assoc, extensions]
  rw [declared, List.mem_append, hplain, hsetup]
  simp only [hnames, hbound]
  constructor
  · rintro (⟨b, hb, y, hy, hform, htext⟩ | ⟨b, hb, y, hy, hform, htext⟩)
    · exact ⟨y.1, hform, b, .inr hb, y, hy, rfl, htext⟩
    · exact ⟨y.1, hform, b, .inl hb, y, hy, rfl, htext⟩
  · rintro ⟨form, hform, b, hb | hb, y, hy, rfl, htext⟩
    · exact .inr ⟨b, hb, y, hy, hform, htext⟩
    · exact .inl ⟨b, hb, y, hy, hform, htext⟩

/-! ## The code of the template and the styles -/

/-- The code of the template and the styles reads only what it notes. -/
theorem readsOnly_inner (r : Setting) (d : Document) : ∃ template styles, (Inner.ofDocument r d).code.segments = template ++ styles ∧
    ReadsOnly (templateSetting r d) (· ∈ (Inner.ofDocument r d).accessed) template ∧
    ReadsOnly r (· ∈ (Inner.ofDocument r d).accessed) styles := by
  have htemplate : ReadsOnly (templateSetting r d) (· ∈ (Inner.withTemplate {} r d).accessed)
      (Inner.withTemplate {} r d).code.segments := by
    unfold Inner.withTemplate templateSetting
    cases d.template with
    | none => exact .nil
    | some b => exact Generate.readsOnly_ofTemplate r b.content d.fragment
  unfold Inner.ofDocument
  split
  · exact ⟨[], [], rfl, .nil, .nil⟩
  · unfold Inner.withStyles
    split
    · exact ⟨_, [], (List.append_nil _).symm, htemplate, .nil⟩
    · refine ⟨_, _, rfl, htemplate.mono fun x hx => ?_, (Generate.readsOnly_ofStyles r d.styles _).mono fun x hx => ?_⟩
      · exact Generate.subset_addReads _ _ hx
      · exact Generate.mem_addReads hx

/-- A name that the template and the styles note and a script binds is exposed. -/
theorem Inner.mem_exposed {i : Inner} {names : List String} (hread : x ∈ i.accessed) (hbound : x ∈ names) : x ∈ i.exposed names :=
  Generate.mem_addReads (List.mem_filter.2 ⟨List.mem_append_left _ hread, List.contains_iff_mem.2 hbound⟩)

/-! ## The file -/

/-- The section of the template stands in the scene of a document that has a script, unless its plain script names another file. -/
theorem holdsSection_sceneOf (hscripts : d.script ≠ none ∨ d.scriptSetup ≠ none)
    (hsource : ∀ b ∈ d.script, b.attrValue "src" = none) :
    (sceneOf reader o filename d).HoldsSection (sceneOf reader o filename d).pieces := by
  refine Scene.holdsSection_pieces ?_ fun p hp => ?_
  · rcases hscripts with h | h
    · obtain ⟨b, hb⟩ := Option.ne_none_iff_exists'.1 h
      exact .inl (by simp [sceneOf, Draft.ofDocument, hb])
    · obtain ⟨b, hb⟩ := Option.ne_none_iff_exists'.1 h
      exact .inr (by simp [sceneOf, Draft.ofDocument, hb])
  · obtain ⟨r, hr, rfl⟩ := Option.map_eq_some_iff.1 hp
    obtain ⟨b, hb, rfl⟩ := Option.map_eq_some_iff.1 hr
    have hvalue : b.attrValue "src" = none := hsource b hb
    unfold Block.attrValue at hvalue
    unfold Scene.source?
    split
    · rename_i hattr
      rw [show b.attr? "src" = _ from hattr] at hvalue
      cases hvalue
    · rfl

/-- If a script binds a name in a form that is collected, then the draft of the document lists it, and its code shows all the names it
lists to the code of the template and the styles. That code is no part of the draft when the script names another file as its source. -/
def Exposes (reader : Script.Reader) (o : Options) (d : Document) (draft : Draft) (x : String) : Prop :=
  ∀ form : BindingForm, form.isCollected = true → x ∈ boundAs reader o d form → x ∈ draft.exposed ∧
    ((∀ b ∈ d.script, b.attrValue "src" = none) →
      Scene.Shows (o.withComments d.comments).lib draft.exposed draft.inner.code.toText draft.whole.code.toText)

/-- Everything that the code of the template and the styles reads of the component is exposed to it: if a script binds the name in a form
that is collected, then the draft of the document lists it, and its code declares the types of all the names listed and merges them into
the component before the code of the template and the styles. The file of the document has the code of the draft and lists its names.

The forms that are collected are declarations of the top level by `var`, `let` or `const`, functions, classes and enumerations that are
not exported, and imports of values that are no components. -/
theorem reads_exposed (reader : Script.Reader) (o : Options) (filename : Option String) (d : Document) :
    let scene := sceneOf reader o filename d
    let setting := settingOf reader scene.options scene.script scene.setup filename
    let draft := Draft.ofDocument reader o filename d
    (∀ f, ofDocumentBy reader o filename d = .ok f → f.code = draft.whole.code.toText ∧ f.exposed = draft.exposed) ∧
      ∃ template styles, draft.inner.code.segments = template ++ styles ∧
        ReadsOnly (templateSetting setting d) (Exposes reader o d draft) template ∧
        ReadsOnly setting (Exposes reader o d draft) styles := by
  intro scene setting draft
  obtain ⟨template, styles, hsegments, htemplate, hstyles⟩ := readsOnly_inner setting d
  have hread : ∀ x ∈ (Inner.ofDocument setting d).accessed, Exposes reader o d draft x := by
    intro x hx form hform hbound
    have hmem : x ∈ scene.exposed := Inner.mem_exposed hx ((mem_declared_iff filename).2 ⟨form, hform, hbound⟩)
    refine ⟨hmem, fun hsource => ?_⟩
    obtain ⟨b, hb, -⟩ := List.mem_flatMap.1 hbound
    have hscripts : d.script ≠ none ∨ d.scriptSetup ≠ none := by
      refine (List.mem_append.1 hb).imp (fun h => ?_) fun h => ?_
      · exact Option.ne_none_iff_exists'.2 ⟨b, Option.mem_toList.1 h⟩
      · exact Option.ne_none_iff_exists'.2 ⟨b, Option.mem_toList.1 h⟩
    exact Scene.shows_write (List.ne_nil_of_mem hmem) (holdsSection_sceneOf hscripts hsource) draft.inner.code
  refine ⟨fun f hf => ?_, template, styles, hsegments, htemplate.mono hread, hstyles.mono hread⟩
  obtain ⟨hcode, -, hexposed⟩ := of_ofDocumentBy_ok hf
  exact ⟨hcode, hexposed⟩

example : (Draft.ofDocument Script.Module.read default none (Document.split
    "<script>const j = 1</script><template>\x7b\x7b j \x7d\x7d</template>").1).exposed = ["j"] := by
  decide +kernel

/-- A document with some scripts, whose template reads a variable. -/
def readingAfter (scripts : String) : Document := (Document.split (scripts ++ "<template>\x7b\x7b j \x7d\x7d</template>")).1

/-- What is written for a document. -/
def draftOf (d : Document) : Draft := Draft.ofDocument Script.Module.read default none d

/-- The name `j`, read of the component in the first interpolation of a template. -/
def readOfComponent : List Segment := [.text Generate.ownerText, .mapped "j" SourceId.template 3 Info.checked]

/-- A document reads the name `j` of the component, and its scripts bind it in a form, but it is not exposed. -/
def Misses (d : Document) (form : BindingForm) : Prop :=
  "j" ∈ boundAs Script.Module.read default d form ∧ readOfComponent <:+: (draftOf d).inner.code.segments ∧ (draftOf d).exposed = []

instance (d : Document) (form : BindingForm) : Decidable (Misses d form) := inferInstanceAs (Decidable (_ ∧ _ ∧ _))

/-- Variables that are bound, and read of the component, but not exposed. These are the names in the forms that are not collected: what is
exported, what `using` declares, what `var` declares within a statement, namespaces, and imports that are written like assignments. Nor is
a variable exposed that is spelled with an escape; and with a script in another file the name is listed, but nothing shows it to the
template. -/
theorem bound_not_exposed :
    let escaped := readingAfter "<script>const \\u006a = 1</script>"
    let elsewhere := readingAfter "<script src=\"./a.js\">const j = 1</script>"
    (Misses (readingAfter "<script>export const j = 1</script><script setup></script>") .exports ∧
        Misses (readingAfter "<script setup lang=\"ts\">using j = a</script>") .disposed ∧
        Misses (readingAfter "<script setup>\x7b var j = 1 \x7d</script>") .nested ∧
        Misses (readingAfter "<script lang=\"ts\">namespace j \x7b const a = 1 \x7d</script>") .namespaces ∧
        Misses (readingAfter "<script setup lang=\"ts\">import j = require('m')</script>") .importEquals) ∧
      ((escaped.script.map fun b => ((Script.Module.read b.content b.lang).bindings b.content []).values.map (·.name)) = some ["j"] ∧
        readOfComponent <:+: (draftOf escaped).inner.code.segments ∧ (draftOf escaped).exposed = []) ∧
      readOfComponent <:+: (draftOf elsewhere).inner.code.segments ∧ (draftOf elsewhere).exposed = ["j"] ∧
        (draftOf elsewhere).whole.code.toText =
          "import __VLS_export from \"./a.js\";\nexport default \x7b\x7d as typeof __VLS_export;\n" := by
  refine ⟨⟨?_, ?_, ?_, ?_, ?_⟩, ?_, ?_⟩ <;> decide +kernel

end TypedFile

end TypedSfc
