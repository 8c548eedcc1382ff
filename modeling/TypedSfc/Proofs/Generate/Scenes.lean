import TypedSfc.Proofs.Generate.Pieces

/-!
# The pieces of a scene

Everything around the template is copied from a script, taken from the document, or made up. The section that holds the code of the
template stands once: behind a plain script, or at the end of the body of a setup script.
-/

namespace TypedSfc

open Generate

variable {P : Permit}

/-! ## Scripts that fit a permit -/

/-- Whether what a scene takes from a plain script may be mapped: its parts, its ends, and the path of the file that it names. -/
structure PlainScript.Fits (P : Permit) (p : PlainScript) : Prop where
  part : ∀ s, (p.part s).Outer P
  start : P.allows "" SourceId.script 0
  stop : P.allows "" SourceId.script p.block.size
  path : ∀ path offset, Scene.source? p = some (path, offset) →
    (Piece.quoted (Scene.importPath path) SourceId.document ⟨offset, offset + path.utf8ByteSize⟩).Outer P

/-- Whether what a scene takes from a setup script may be mapped: its parts, its ends, the names by which it asks for style modules, and
its type parameters. -/
structure SetupScript.Fits (P : Permit) (q : SetupScript) : Prop where
  part : ∀ s, (q.part s).Outer P
  start : P.allows "" SourceId.scriptSetup 0
  stop : P.allows "" SourceId.scriptSetup q.block.size
  modules : ∀ c ∈ q.setup.cssModules,
    P.allows "" SourceId.scriptSetup c.callee.start ∧ P.allows "" SourceId.scriptSetup c.callee.stop
  parameters : ∀ g, q.block.attr? "generic" = some g → Outer P (Scene.typeParameters g)

/-- Whether the scripts of a scene fit a permit. -/
structure Generate.Scene.Fits (P : Permit) (s : Scene) : Prop where
  plain : ∀ p ∈ s.script, p.Fits P
  setup : ∀ q ∈ s.setup, q.Fits P

/-- A permit for whole sources fits every scene. -/
theorem Generate.Scene.fits_below (s : Scene) : s.Fits (.below 4) := by
  have hdocument : SourceId.document < 4 := by decide
  have hscript : SourceId.script < 4 := by decide
  have hsetup : SourceId.scriptSetup < 4 := by decide
  refine ⟨fun p _ => ⟨fun _ _ => hscript, hscript, hscript, fun _ _ _ => ⟨hdocument, hdocument, hdocument⟩⟩, fun q _ => ?_⟩
  refine ⟨fun _ _ => hsetup, hsetup, hsetup, fun _ _ => ⟨hsetup, hsetup⟩, fun g _ => ?_⟩
  have hmapped (t : String) (offset : Nat) : (Permit.below 4).allows t SourceId.document offset := hdocument
  unfold Scene.typeParameters
  repeat' split
  all_goals simp [hmapped]

namespace SetupScript

theorem outer_modelDeclarations (q : SetupScript) : Outer P q.modelDeclarations := by
  unfold modelDeclarations
  split <;> simp

theorem outer_defaultsDeclaration {q : SetupScript} (hq : q.Fits P) : Outer P q.defaultsDeclaration := by
  unfold defaultsDeclaration
  split <;> simp [hq.part]

theorem outer_publicProps (q : SetupScript) : Outer P q.publicProps := by
  unfold publicProps
  extract_lets types
  split <;> simp

end SetupScript

namespace Generate

/-! ## Edits -/

/-- Edits whose pieces are around the template. -/
def OuterEdits (P : Permit) (es : List Edit) : Prop := ∀ e ∈ es, Outer P e.pieces

@[simp] theorem outerEdits_nil : OuterEdits P [] := by simp [OuterEdits]

@[simp] theorem outerEdits_cons {e : Edit} {es : List Edit} : OuterEdits P (e :: es) ↔ Outer P e.pieces ∧ OuterEdits P es := by
  simp [OuterEdits]

@[simp] theorem outerEdits_append {as bs : List Edit} : OuterEdits P (as ++ bs) ↔ OuterEdits P as ∧ OuterEdits P bs := by
  simp [OuterEdits, or_imp, forall_and]

theorem outerEdits_flatMap {α : Type} {l : List α} {f : α → List Edit} (h : ∀ a ∈ l, OuterEdits P (f a)) :
    OuterEdits P (l.flatMap f) := by
  intro e he
  obtain ⟨a, hmem, ha⟩ := List.mem_flatMap.1 he
  exact h a hmem e ha

theorem outer_gap {copy : Span → Piece} (hcopy : ∀ s, (copy s).Outer P) (start stop : Nat) : Outer P (Edit.gap copy start stop) := by
  unfold Edit.gap
  split <;> simp [hcopy]

/-- A copy with edits is around the template when the edits are. -/
theorem outer_copyWith {copy : Span → Piece} (hcopy : ∀ s, (copy s).Outer P) (range : Span) {es : List Edit} (hes : OuterEdits P es) :
    Outer P (Edit.copyWith copy range es) := by
  have hall : ∀ (es : List Edit) (start : Nat), OuterEdits P es → Outer P (Edit.applyAll copy range.stop start es) := by
    intro es
    induction es with
    | nil => exact fun start _ => outer_gap hcopy start range.stop
    | cons e es ih =>
      intro start hes
      obtain ⟨he, hes⟩ := outerEdits_cons.1 hes
      exact outer_append.2 ⟨outer_append.2 ⟨outer_gap hcopy _ _, he⟩, ih _ hes⟩
  exact hall _ _ fun e he => hes e (List.mem_mergeSort.1 he)

namespace SetupEdits

section

variable {q : SetupScript} (hq : q.Fits P)

include hq

theorem outer_definition (d : Definition) : OuterEdits P (d.edits q) := by
  refine outerEdits_append.2 ⟨?_, ?_⟩
  · unfold Definition.typeEdits
    split <;> simp [Edit.insert, hq.part]
  · unfold Definition.valueEdits
    extract_lets declare before
    have hdeclare : declare.Outer P := trivial
    have hbefore : before.Outer P := hq.part _
    repeat' split
    all_goals simp [Edit.insert, hdeclare, hbefore, hq.part]

theorem outer_exposeEdits (c : Script.CallPlaces) : OuterEdits P (exposeEdits q c) := by
  unfold exposeEdits
  extract_lets exposed
  split <;> simp [Edit.insert, hq.part]

end

theorem outer_castEdits (c : Script.CallPlaces) {type : List Piece} (h : Outer P type) : OuterEdits P (castEdits c type) := by
  simp [castEdits, Edit.insert, h]

theorem outer_dollarEdits (member : String) (c : Script.CallPlaces) : OuterEdits P (dollarEdits member c) :=
  outer_castEdits c (by simp)

theorem outer_anyArgument (a : Span) : Outer P (anyArgument a).pieces := by simp [anyArgument]

theorem outer_moduleEdits (s : Scene) {q : SetupScript} (hq : q.Fits P) {c : Script.CallPlaces} (hc : c ∈ q.setup.cssModules) :
    OuterEdits P (moduleEdits s q c) := by
  unfold moduleEdits
  extract_lets modules
  split
  · refine outerEdits_append.2 ⟨outer_castEdits c (by simp [hq.part]), ?_⟩
    simp [outer_anyArgument]
  · have hplain : Info.checked.policy.isPlain = true := rfl
    exact outer_castEdits c (by simp [hq.modules c hc, hplain])

theorem outer_refEdits (s : Scene) {q : SetupScript} (hq : q.Fits P) (c : Script.CallPlaces) : OuterEdits P (refEdits s q c) := by
  unfold refEdits
  split
  · simp
  · extract_lets start stop
    have hstart : start.Outer P := trivial
    have hstop : stop.Outer P := trivial
    split
    · exact outerEdits_cons.2 ⟨outer_anyArgument _, outer_castEdits c (by simp [hstart, hstop, hq.part])⟩
    · exact outer_castEdits c (by simp [hstart, hstop])

theorem outer_all (s : Scene) {q : SetupScript} (hq : q.Fits P) : OuterEdits P (all s q) := by
  unfold all
  simp only [outerEdits_append]
  refine ⟨⟨⟨⟨⟨?_, ?_⟩, ?_⟩, ?_⟩, ?_⟩, ?_⟩
  · exact outerEdits_flatMap fun d _ => outer_definition hq d
  · cases q.setup.expose with
    | none => simp
    | some c => exact outer_exposeEdits hq c
  · split
    · exact outerEdits_flatMap fun c _ => outer_dollarEdits _ c
    · simp
  · exact outerEdits_flatMap fun c hc => outer_moduleEdits s hq hc
  · split
    · exact outerEdits_flatMap fun c _ => outer_dollarEdits _ c
    · simp
  · exact outerEdits_flatMap fun r _ => outer_refEdits s hq r.call

end SetupEdits

namespace Scene

/-! ## What a template reads from -/

theorem outer_exposedDeclaration (s : Scene) : Outer P s.exposedDeclaration := by
  unfold exposedDeclaration
  split <;> simp

theorem outer_componentDeclaration (s : Scene) (self : Option String) : Outer P (s.componentDeclaration self) := by
  unfold componentDeclaration
  split <;> simp

theorem outer_optionDeclaration {s : Scene} (hs : s.Fits P) (option : Script.ExportOptions → Option Span) (key : String) :
    Outer P (s.optionDeclaration option key).1 := by
  unfold optionDeclaration
  split
  · rename_i p _ heq
    obtain ⟨p, hp, hsome⟩ := Option.bind_eq_some_iff.1 heq
    obtain ⟨a, -, heq⟩ := Option.map_eq_some_iff.1 hsome
    obtain ⟨rfl, rfl⟩ := Prod.mk.inj heq
    simp [(hs.plain p hp).part]
  · simp

theorem outer_componentsDeclaration {s : Scene} (hs : s.Fits P) : Outer P s.componentsDeclaration :=
  outer_append.2 ⟨outer_optionDeclaration hs _ _, by simp⟩

theorem outer_directivesDeclaration {s : Scene} (hs : s.Fits P) : Outer P s.directivesDeclaration :=
  outer_append.2 ⟨outer_optionDeclaration hs _ _, by simp⟩

/-- The section of the template holds its code once, at the end. -/
theorem around_templateSection {s : Scene} (hs : s.Fits P) (self : Option String) : Around P (s.templateSection self) := by
  refine .inr ⟨_, [], rfl, ?_, outer_nil⟩
  simp [outer_exposedDeclaration, outer_componentDeclaration, outer_componentsDeclaration hs, outer_directivesDeclaration hs]

/-! ## The component -/

theorem outer_eventsOption (s : Scene) (q : SetupScript) : Outer P (s.eventsOption q) := by
  unfold eventsOption
  repeat' split
  all_goals simp

theorem outer_propertiesOption (s : Scene) (q : SetupScript) : Outer P (s.propertiesOption q) := by
  unfold propertiesOption
  extract_lets types values
  refine outer_append.2 ⟨outer_append.2 ⟨?_, ?_⟩, ?_⟩
  · intro p hp
    obtain ⟨h, -, rfl⟩ := List.mem_map.1 hp
    exact Piece.outer_needs h
  · repeat' split
    all_goals simp
  · split <;> simp

theorem outer_shownOption (s : Scene) (flag : Options.Flag) (option key : String) : Outer P (s.shownOption flag option key) := by
  unfold shownOption
  split <;> simp

theorem outer_component (s : Scene) (q : SetupScript) : Outer P (s.component q) := by
  unfold component
  simp only [outer_append, outer_eventsOption, outer_propertiesOption, outer_shownOption]
  split <;> simp

/-! ## Generic components -/

theorem outer_genericHead {parameters : BlockAttr} (h : Outer P (typeParameters parameters)) : Outer P (genericHead parameters) := by
  simp [genericHead, h]

theorem outer_genericTail (s : Scene) {q : SetupScript} (hq : q.Fits P) : Outer P (s.genericTail q) := by
  unfold genericTail
  extract_lets own
  split <;> simp [hq.part]

/-! ## The scripts -/

theorem outer_declaration {source : SourceId} {size : Nat} (hstart : P.allows "" source 0) (hstop : P.allows "" source size)
    (key : String) : Outer P (declaration source size key) := by
  have hplain : Info.unusedName.policy.isPlain = true := rfl
  simp [declaration, hstart, hstop, hplain]

@[simp] theorem outer_exportLine : exportLine.Outer P := Piece.outer_text _

theorem outer_wrapped (s : Scene) {p : PlainScript} (hp : p.Fits P) (d : Script.DefaultExport) : Outer P (s.wrapped p d) := by
  unfold wrapped
  repeat' split
  all_goals simp [hp.part]

/-- An export has pieces before and behind what stands between. -/
theorem exists_withExport (s : Scene) {p : PlainScript} (hp : p.Fits P) (d : Script.DefaultExport) (key : String)
    (between : List Piece) : ∃ as bs, s.withExport p d key between = as ++ between ++ bs ∧ Outer P as ∧ Outer P bs := by
  unfold withExport
  extract_lets value
  simp only [List.append_assoc]
  refine ⟨_, _, rfl, ?_, ?_⟩
  · simp [hp.part]
  · simp [outer_declaration hp.start hp.stop, outer_wrapped s hp, hp.part]

theorem around_plainOnly {s : Scene} (hs : s.Fits P) {p : PlainScript} (hp : p.Fits P) : Around P (s.plainOnly p) := by
  unfold plainOnly
  split
  · obtain ⟨as, bs, heq, ha, hb⟩ := exists_withExport s hp _ "export" (s.templateSection (some (name "export")))
    rw [heq]
    exact (ha.before (around_templateSection hs _)).then hb
  · refine (Outer.before ?_ (around_templateSection hs _)).then (by simp)
    simp [outer_declaration hp.start hp.stop, hp.part]

section

variable {s : Scene} (hs : s.Fits P) {q : SetupScript} (hq : q.Fits P)

include hq

theorem outer_setupExport : Outer P (setupExport q) := outer_declaration hq.start hq.stop _

theorem outer_imports : Outer P (imports q) := by simp [imports, hq.part]

include hs

theorem around_setupBody (self : Option String) : Around P (s.setupBody q self) := by
  refine Outer.before ?_ (around_templateSection hs self)
  have hmacros : Outer P s.macroDeclarations := by
    unfold macroDeclarations
    split <;> simp
  have hcopy := outer_copyWith hq.part ⟨q.bodyStart, q.block.size⟩ (SetupEdits.outer_all s hq)
  simp [hcopy, hmacros, q.outer_modelDeclarations, SetupScript.outer_defaultsDeclaration hq, q.outer_publicProps]

theorem around_generic {parameters : BlockAttr} (h : q.block.attr? "generic" = some parameters) (self : Option String) :
    Around P (s.generic q parameters self) :=
  (Outer.before (outer_genericHead (hq.parameters _ h)) (around_setupBody hs hq self)).then (outer_genericTail s hq)

end

theorem outer_setupComponent (s : Scene) (q : SetupScript) {output : List Piece} (h : Outer P output) :
    Outer P (s.setupComponent q output) := by
  unfold setupComponent
  split <;> simp [outer_component, h]

theorem around_setupOnly {s : Scene} (hs : s.Fits P) {q : SetupScript} (hq : q.Fits P) : Around P (s.setupOnly q) := by
  refine (Outer.before (outer_imports hq) ?_).then (by simp)
  split
  · rename_i g hg
    exact (outer_setupExport hq).before (around_generic hs hq hg _)
  · exact (around_setupBody hs hq none).then (outer_setupComponent s q (outer_setupExport hq))

theorem around_both {s : Scene} (hs : s.Fits P) {p : PlainScript} (hp : p.Fits P) {q : SetupScript} (hq : q.Fits P) :
    Around P (s.both p q) := by
  unfold both
  extract_lets self
  refine Outer.before ?_ ?_
  · simp only [outer_append, outer_imports hq, outer_setupExport hq, true_and, and_true]
    split
    · obtain ⟨as, bs, heq, ha, hb⟩ := exists_withExport s hp _ "self" []
      rw [heq]
      simp [ha, hb]
    · simp [hp.part]
  · split
    · rename_i g hg
      exact around_generic hs hq hg self
    · have hawait : Outer P [.text "await (async () => \x7b\n"] := by simp
      have hbody := hawait.before (around_setupBody hs hq self)
      exact (hbody.then (outer_setupComponent s q (by simp))).then (by simp)

/-- The code of the template is at most one of the pieces of a scene. -/
theorem around_pieces {s : Scene} (hs : s.Fits P) : Around P s.pieces := by
  unfold pieces
  split
  · rename_i p hp
    split
    · rename_i hpath
      refine Outer.around ?_
      simp [reexport, (hs.plain p hp).path _ _ hpath]
    · rename_i q _ hq
      exact around_both hs (hs.plain p hp) (hs.setup q hq)
    · exact around_plainOnly hs (hs.plain p hp)
  · rename_i q _ hq
    exact around_setupOnly hs (hs.setup q hq)
  · exact outer_nil.around

end Scene

end Generate

end TypedSfc
