import TypedSfc.Generate.Script
import TypedSfc.Proofs.Generate.Cuts

/-!
# Statements on lines of their own

The code around a template is made of copied parts of the scripts and of statements that are added to them. A statement begins a line
when what is written before it ends one, and all that is added does so; what is copied does so if the script does. The body of a setup
script is followed by a fresh line, but other copied parts are not.
-/

namespace TypedSfc

/-- A text that is empty or ends with a line feed. -/
def Text.EndsLine (t : String) : Prop := t = "" ∨ t.toList.getLast? = some '\n'

instance (t : String) : Decidable (Text.EndsLine t) := inferInstanceAs (Decidable (_ ∨ _))

namespace Text

@[simp] theorem endsLine_empty : EndsLine "" := .inl rfl

/-- A text behind a line goes on to the end of a line just when it ends one itself. -/
theorem endsLine_append_iff {a b : String} (ha : EndsLine a) : EndsLine (a ++ b) ↔ EndsLine b := by
  by_cases hb : b = ""
  · subst hb
    simpa using ha
  · have hne : b.toList ≠ [] := fun h => hb (String.toList_eq_nil_iff.1 h)
    simp [EndsLine, hb, List.getLast?_append, List.getLast?_eq_some_getLast hne]

theorem getLast?_toList_append (a : String) {b : String} (hb : b.toList.getLast? = some '\n') : (a ++ b).toList.getLast? = some '\n' := by
  rw [String.toList_append, List.getLast?_append, hb]
  rfl

end Text

namespace Code

/-- Behind text that ends with a line feed a line starts. -/
theorem atLineStart_text (c : Code) {t : String} (ht : t.toList.getLast? = some '\n') : (c.text t).atLineStart = true := by
  have hne : t.isEmpty = false := by
    cases hempty : t.isEmpty with
    | false => rfl
    | true =>
      rw [String.isEmpty_iff.1 hempty] at ht
      cases ht
  rw [atLineStart_iff, text, hne, if_neg Bool.false_ne_true, add, toText, Segment.contents_append]
  refine .inr (Text.getLast?_toList_append _ ?_)
  simpa [Segment.contents, Segment.content] using ht

/-- Behind other code that ends its lines a line starts if one starts before it. -/
theorem atLineStart_append {c other : Code} (hc : c.atLineStart = true) (h : other.atLineStart = true) :
    (c.append other).atLineStart = true := by
  rw [atLineStart_iff] at h hc ⊢
  rw [toText, append, Segment.contents_append]
  exact (Text.endsLine_append_iff hc).2 h

end Code

namespace Generate

/-! ## Sections -/

/-- A section of the code around a template, and whether it begins with a statement that is added to the scripts. -/
structure Section where
  isStatement : Bool
  pieces : List Piece

/-- Statements that are added. -/
abbrev Section.statement (ps : List Piece) : Section := ⟨true, ps⟩

/-- What goes on where the section before it ends. -/
abbrev Section.rest (ps : List Piece) : Section := ⟨false, ps⟩

/-- The pieces of sections. -/
def piecesOf (ss : List Section) : List Piece := ss.flatMap (·.pieces)

@[simp] theorem piecesOf_nil : piecesOf [] = [] := rfl

@[simp] theorem piecesOf_cons (x : Section) (ss : List Section) : piecesOf (x :: ss) = x.pieces ++ piecesOf ss := rfl

@[simp] theorem piecesOf_append (ss ss' : List Section) : piecesOf (ss ++ ss') = piecesOf ss ++ piecesOf ss' := List.flatMap_append

namespace Scene

/-- The sections of the code of the template with what it reads from. -/
def templateSections (s : Scene) (self : Option String) : List Section :=
  [.statement s.exposedDeclaration,
    .statement (if s.emitTypes.isEmpty then [] else
      [.text ("type " ++ name "EmitProps" ++ " = " ++ name "EmitsToProps" ++ "<" ++ name "NormalizeEmits" ++ "<" ++
        " & ".intercalate s.emitTypes ++ ">>;\n")]),
    .statement [.text ("const " ++ name "ctx" ++ " = "), .merged (s.componentOperands self), .text ";\n"],
    .statement s.componentsDeclaration, .statement s.directivesDeclaration, .rest [.template]]

/-- The sections of a script with a default export. -/
def exportSections (s : Scene) (p : PlainScript) (d : Script.DefaultExport) (key : String) (between : List Section) : List Section :=
  let value := (exportedValue d).1
  [.rest [p.part ⟨0, value.start⟩, .text ("\x7b\x7d as typeof " ++ name "export"), p.part ⟨value.stop, d.range.stop⟩, .text ";\n"]] ++
  between ++
  [.statement (declaration SourceId.script p.block.size key ++ s.wrapped p d ++ [.text ";\n"]),
    .rest [p.part ⟨d.range.stop, p.block.size⟩]]

/-- The sections of a script alone. -/
def plainSections (s : Scene) (p : PlainScript) : List Section :=
  match p.exported with
  | some d => s.exportSections p d "export" (s.templateSections (some (name "export")))
  | none =>
    [.rest [p.part ⟨0, p.block.size⟩],
      .statement (declaration SourceId.script p.block.size "export" ++
        [.text ("(await import(\"" ++ s.options.lib ++ "\")).defineComponent(\x7b\x7d);\n")])] ++
    s.templateSections (some (name "export")) ++ [.statement [exportLine]]

/-- The sections of the body of a setup script. -/
def bodySections (s : Scene) (q : SetupScript) (self : Option String) : List Section :=
  [.rest (Edit.copyWith q.part ⟨q.bodyStart, q.block.size⟩ (SetupEdits.all s q) ++ [.freshLine]), .statement s.macroDeclarations,
    .statement q.modelDeclarations, .statement q.defaultsDeclaration, .statement q.publicProps] ++ s.templateSections self

/-- The sections of the component of a setup script. -/
def componentSections (s : Scene) (q : SetupScript) (output : List Piece) : List Section :=
  if s.hasSlots then
    [.statement ([.text ("const " ++ name "base" ++ " = ")] ++ s.component q ++ [.text ";\n"]),
      .statement (output ++ [.needs .withSlots,
        .text ("\x7b\x7d as " ++ HelperType.withSlots.name ++ "<typeof " ++ name "base" ++ ", " ++ name "Slots" ++ ">;\n")])]
  else [.statement (output ++ s.component q ++ [.text ";\n"])]

/-- The sections of a component with type parameters. -/
def genericSections (s : Scene) (q : SetupScript) (parameters : BlockAttr) (self : Option String) : List Section :=
  [.statement (setupExport q ++ genericHead parameters)] ++ s.bodySections q self ++ [.statement (s.genericTail q)]

/-- The sections of a setup script alone. -/
def setupSections (s : Scene) (q : SetupScript) : List Section :=
  (match q.block.attr? "generic" with
    | some g => .rest (imports q) :: s.genericSections q g none
    | none => .rest (imports q) :: (s.bodySections q none ++ s.componentSections q (setupExport q))) ++
  [.statement [exportLine]]

/-- The sections of both scripts. -/
def bothSections (s : Scene) (p : PlainScript) (q : SetupScript) : List Section :=
  let self := p.exported.map fun _ => name "self"
  .rest (imports q) ::
  ((match p.exported with
    | some d => s.exportSections p d "self" []
    | none => [.rest [p.part ⟨0, p.block.size⟩], .statement [exportLine]]) ++
  match q.block.attr? "generic" with
  | some g => s.genericSections q g self
  | none =>
    [.statement (setupExport q ++ [.text "await (async () => \x7b\n"])] ++ s.bodySections q self ++
    s.componentSections q [.text "return "] ++ [.rest [.text "\x7d)();\n"]])

/-- The sections of the code around a template. -/
def sections (s : Scene) : List Section :=
  match s.script, s.setup with
  | some p, setup =>
    match source? p, setup with
    | some (path, offset), _ => [.statement (reexport path offset)]
    | none, some q => s.bothSections p q
    | none, none => s.plainSections p
  | none, some q => s.setupSections q
  | none, none => []

theorem piecesOf_templateSections (s : Scene) (self : Option String) : piecesOf (s.templateSections self) = s.templateSection self := by
  simp [templateSections, templateSection, componentDeclaration]

theorem piecesOf_exportSections (s : Scene) (p : PlainScript) (d : Script.DefaultExport) (key : String) (between : List Section) :
    piecesOf (s.exportSections p d key between) = s.withExport p d key (piecesOf between) := by
  simp [exportSections, withExport]

theorem piecesOf_bodySections (s : Scene) (q : SetupScript) (self : Option String) :
    piecesOf (s.bodySections q self) = s.setupBody q self := by
  simp [bodySections, setupBody, piecesOf_templateSections]

theorem piecesOf_componentSections (s : Scene) (q : SetupScript) (output : List Piece) :
    piecesOf (s.componentSections q output) = s.setupComponent q output := by
  unfold componentSections setupComponent
  split <;> simp

theorem piecesOf_genericSections (s : Scene) (q : SetupScript) (parameters : BlockAttr) (self : Option String) :
    piecesOf (s.genericSections q parameters self) = setupExport q ++ s.generic q parameters self := by
  simp [genericSections, generic, piecesOf_bodySections]

theorem piecesOf_plainSections (s : Scene) (p : PlainScript) : piecesOf (s.plainSections p) = s.plainOnly p := by
  unfold plainSections plainOnly
  cases p.exported <;> simp [piecesOf_exportSections, piecesOf_templateSections]

theorem piecesOf_setupSections (s : Scene) (q : SetupScript) : piecesOf (s.setupSections q) = s.setupOnly q := by
  unfold setupSections setupOnly
  cases q.block.attr? "generic" <;> simp [piecesOf_genericSections, piecesOf_bodySections, piecesOf_componentSections]

theorem piecesOf_bothSections (s : Scene) (p : PlainScript) (q : SetupScript) : piecesOf (s.bothSections p q) = s.both p q := by
  unfold bothSections both
  cases p.exported <;> cases q.block.attr? "generic" <;>
    simp [piecesOf_exportSections, piecesOf_genericSections, piecesOf_bodySections, piecesOf_componentSections]

/-- The sections make up the code. -/
theorem piecesOf_sections (s : Scene) : piecesOf s.sections = s.pieces := by
  rcases hp : s.script with _ | p
  · rcases hq : s.setup with _ | q
    · simp only [sections, pieces, hp, hq, piecesOf_nil]
    · simp only [sections, pieces, hp, hq, piecesOf_setupSections]
  · rcases hsource : source? p with _ | ⟨path, offset⟩
    · rcases hq : s.setup with _ | q
      · simp only [sections, pieces, hp, hq, hsource, piecesOf_plainSections]
      · simp only [sections, pieces, hp, hq, hsource, piecesOf_bothSections]
    · simp only [sections, pieces, hp, hsource, piecesOf_cons, piecesOf_nil, List.append_nil]

end Scene

/-! ## The ends of lines -/

section

variable {inner : Code} {w : Written}

/-- Writes pieces behind what is written. -/
def Written.then (w : Written) (inner : Code) (ps : List Piece) : Written := ps.foldl (Piece.write inner) w

@[simp] theorem Written.then_nil : w.then inner [] = w := rfl

@[simp] theorem Written.then_cons (p : Piece) (ps : List Piece) : w.then inner (p :: ps) = (p.write inner w).then inner ps := rfl

@[simp] theorem Written.then_append (as bs : List Piece) : w.then inner (as ++ bs) = (w.then inner as).then inner bs := List.foldl_append

/-- Pieces behind which a line starts if one starts before them. -/
def KeepLines (inner : Code) (ps : List Piece) : Prop :=
  ∀ w : Written, w.code.atLineStart = true → (w.then inner ps).code.atLineStart = true

/-- Pieces behind which a line starts. -/
def EndLines (inner : Code) (ps : List Piece) : Prop := ∀ w : Written, (w.then inner ps).code.atLineStart = true

theorem EndLines.keeps {ps : List Piece} (h : EndLines inner ps) : KeepLines inner ps := fun w _ => h w

theorem keepLines_nil : KeepLines inner [] := fun _ h => h

theorem KeepLines.append {as bs : List Piece} (ha : KeepLines inner as) (hb : KeepLines inner bs) : KeepLines inner (as ++ bs) := by
  intro w hw
  rw [Written.then_append]
  exact hb _ (ha w hw)

theorem EndLines.append {as bs : List Piece} (ha : EndLines inner as) (hb : KeepLines inner bs) : EndLines inner (as ++ bs) := by
  intro w
  rw [Written.then_append]
  exact hb _ (ha w)

theorem EndLines.behind {bs : List Piece} (hb : EndLines inner bs) (as : List Piece) : EndLines inner (as ++ bs) := by
  intro w
  rw [Written.then_append]
  exact hb _

theorem endLines_text {t : String} (ht : t.toList.getLast? = some '\n') : EndLines inner [.text t] := fun w => w.code.atLineStart_text ht

theorem keepLines_declares (type : String) : KeepLines inner [.declares type] := fun _ h => h

theorem endLines_freshLine : EndLines inner [.freshLine] := by
  intro w
  show (if w.code.atLineStart then w.code else w.code.text "\n").atLineStart = true
  split
  · assumption
  · exact w.code.atLineStart_text rfl

/-- Text that ends with a literal line feed. -/
theorem endLines_line (t : String) {u : String} (hu : u.toList.getLast? = some '\n') : EndLines inner [.text (t ++ u)] :=
  endLines_text (Text.getLast?_toList_append t hu)

theorem keepLines_template (h : inner.atLineStart = true) : KeepLines inner [.template] := fun _ hw => Code.atLineStart_append hw h

theorem toText_copied (w : Written) (t : String) (source : SourceId) (offset : Nat) :
    (Piece.write inner w (.copied t source offset)).code.toText = w.code.toText ++ t := by
  unfold Piece.write
  dsimp only
  split
  · rename_i hempty
    rw [String.isEmpty_iff.1 hempty, String.append_empty]
  · exact Segment.contents_snoc w.code.segments _

/-- Behind a part that is copied at the start of a line, a line starts just when the part ends one. -/
theorem atLineStart_copied (hw : w.code.atLineStart = true) (t : String) (source : SourceId) (offset : Nat) :
    (w.then inner [.copied t source offset]).code.atLineStart = true ↔ Text.EndsLine t := by
  rw [Code.atLineStart_iff] at hw ⊢
  rw [← Text.endsLine_append_iff hw, Written.then_cons, Written.then_nil, toText_copied]
  rfl

/-- The same for two parts. -/
theorem atLineStart_copied_copied (hw : w.code.atLineStart = true) (t u : String) (source source' : SourceId) (offset offset' : Nat) :
    (w.then inner [.copied t source offset, .copied u source' offset']).code.atLineStart = true ↔ Text.EndsLine (t ++ u) := by
  rw [Code.atLineStart_iff] at hw ⊢
  rw [← Text.endsLine_append_iff hw, Written.then_cons, Written.then_cons, Written.then_nil, toText_copied, toText_copied,
    String.append_assoc]
  rfl

end

/-! ## The beginnings of statements -/

/-- Whether each statement among some sections, written behind `w`, begins a line. -/
def BeginLines (inner : Code) (w : Written) (ss : List Section) : Prop :=
  ∀ before x after, ss = before ++ x :: after → x.isStatement = true → (w.then inner (piecesOf before)).code.atLineStart = true

section

variable {inner : Code} {w : Written}

theorem beginLines_nil : BeginLines inner w [] := by
  intro before x after h
  cases before <;> cases h

theorem beginLines_cons {x : Section} {ss : List Section} :
    BeginLines inner w (x :: ss) ↔ (x.isStatement = true → w.code.atLineStart = true) ∧ BeginLines inner (w.then inner x.pieces) ss := by
  constructor
  · intro h
    refine ⟨fun hx => h [] x ss rfl hx, fun before y after hss hy => ?_⟩
    have := h (x :: before) y after (by rw [hss, List.cons_append]) hy
    rwa [piecesOf_cons, Written.then_append] at this
  · rintro ⟨hx, hss⟩ before y after heq hy
    cases before with
    | nil =>
      obtain ⟨rfl, -⟩ := List.cons.inj heq
      exact hx hy
    | cons z before =>
      obtain ⟨rfl, hrest⟩ := List.cons.inj heq
      rw [piecesOf_cons, Written.then_append]
      exact hss before y after hrest hy

theorem beginLines_append {ss ss' : List Section} :
    BeginLines inner w (ss ++ ss') ↔ BeginLines inner w ss ∧ BeginLines inner (w.then inner (piecesOf ss)) ss' := by
  induction ss generalizing w with
  | nil => exact (and_iff_right beginLines_nil).symm
  | cons x ss ih => rw [List.cons_append, beginLines_cons, beginLines_cons, ih, and_assoc, piecesOf_cons, Written.then_append]

/-- Sections behind which a line starts if one starts before them. -/
def Orderly (inner : Code) (ss : List Section) : Prop := ∀ x ∈ ss, KeepLines inner x.pieces

theorem Orderly.keeps {ss : List Section} (h : Orderly inner ss) : KeepLines inner (piecesOf ss) := by
  induction ss with
  | nil => exact keepLines_nil
  | cons x ss ih => exact (h x List.mem_cons_self).append (ih fun y hy => h y (List.mem_cons_of_mem _ hy))

/-- At the start of a line, the statements of such sections begin lines. -/
theorem Orderly.beginLines {ss : List Section} (h : Orderly inner ss) (hw : w.code.atLineStart = true) : BeginLines inner w ss := by
  induction ss generalizing w with
  | nil => exact beginLines_nil
  | cons x ss ih =>
    exact beginLines_cons.2 ⟨fun _ => hw, ih (fun y hy => h y (List.mem_cons_of_mem _ hy)) (h x List.mem_cons_self w hw)⟩

/-- Orderly sections that begin with a statement. -/
theorem beginLines_statement {x : Section} {ss : List Section} (hx : x.isStatement = true) (h : Orderly inner (x :: ss)) :
    BeginLines inner w (x :: ss) ↔ w.code.atLineStart = true :=
  ⟨fun hb => (beginLines_cons.1 hb).1 hx, fun hw => h.beginLines hw⟩

theorem orderly_nil : Orderly inner [] := fun _ hx => absurd hx List.not_mem_nil

theorem Orderly.cons {x : Section} {ss : List Section} (hx : KeepLines inner x.pieces) (h : Orderly inner ss) : Orderly inner (x :: ss) :=
  List.forall_mem_cons.2 ⟨hx, h⟩

theorem Orderly.append {ss ss' : List Section} (h : Orderly inner ss) (h' : Orderly inner ss') : Orderly inner (ss ++ ss') :=
  List.forall_mem_append.2 ⟨h, h'⟩

end

/-! ## What is added ends its lines -/

namespace Scene

section

variable {inner : Code} (s : Scene)

theorem keepLines_exposedDeclaration : KeepLines inner s.exposedDeclaration := by
  unfold exposedDeclaration
  split
  · exact keepLines_nil
  · exact (keepLines_declares _).append (endLines_line _ rfl).keeps

theorem endLines_componentsDeclaration : EndLines inner s.componentsDeclaration := EndLines.behind (endLines_line _ rfl) _

theorem endLines_directivesDeclaration : EndLines inner s.directivesDeclaration := EndLines.behind (endLines_line _ rfl) _

theorem orderly_templateSections (h : inner.atLineStart = true) (self : Option String) : Orderly inner (s.templateSections self) := by
  simp only [Orderly, templateSections, List.mem_cons, List.not_mem_nil, or_false, forall_eq_or_imp, forall_eq]
  refine ⟨s.keepLines_exposedDeclaration, ?_, ?_, s.endLines_componentsDeclaration.keeps, s.endLines_directivesDeclaration.keeps,
    keepLines_template h⟩
  · split
    · exact keepLines_nil
    · exact (endLines_line _ rfl).keeps
  · exact (EndLines.behind (endLines_text (t := ";\n") rfl) [_, _]).keeps

theorem keepLines_macroDeclarations : KeepLines inner s.macroDeclarations := by
  unfold macroDeclarations
  split
  · exact (endLines_line _ rfl).keeps
  · exact keepLines_nil

theorem keepLines_modelDeclarations (q : SetupScript) : KeepLines inner q.modelDeclarations := by
  unfold SetupScript.modelDeclarations
  split
  · exact (endLines_line _ rfl).keeps
  · exact keepLines_nil

theorem keepLines_defaultsDeclaration (q : SetupScript) : KeepLines inner q.defaultsDeclaration := by
  unfold SetupScript.defaultsDeclaration
  split
  · exact (EndLines.behind (endLines_text (t := ";\n") rfl) [_, _]).keeps
  · exact keepLines_nil

theorem keepLines_publicProps (q : SetupScript) : KeepLines inner q.publicProps := by
  unfold SetupScript.publicProps
  extract_lets types
  split
  · exact keepLines_nil
  · exact ((endLines_line _ rfl).append (keepLines_declares _)).keeps

theorem orderly_bodySections (h : inner.atLineStart = true) (q : SetupScript) (self : Option String) :
    Orderly inner (s.bodySections q self) := by
  intro x hx
  rcases List.mem_append.1 hx with hx | hx
  · simp only [List.mem_cons, List.not_mem_nil, or_false] at hx
    rcases hx with rfl | rfl | rfl | rfl | rfl
    · exact (endLines_freshLine.behind _).keeps
    · exact s.keepLines_macroDeclarations
    · exact keepLines_modelDeclarations q
    · exact keepLines_defaultsDeclaration q
    · exact keepLines_publicProps q
  · exact s.orderly_templateSections h self x hx

theorem orderly_componentSections (q : SetupScript) (output : List Piece) : Orderly inner (s.componentSections q output) := by
  intro x hx
  unfold componentSections at hx
  split at hx
  · simp only [List.mem_cons, List.not_mem_nil, or_false] at hx
    rcases hx with rfl | rfl
    · exact (EndLines.behind (endLines_text (t := ";\n") rfl) _).keeps
    · exact (EndLines.behind (EndLines.behind (endLines_line _ rfl) [_]) _).keeps
  · obtain rfl := List.mem_singleton.1 hx
    exact (EndLines.behind (endLines_text (t := ";\n") rfl) _).keeps

theorem endLines_exportLine : EndLines inner [exportLine] := endLines_line _ rfl

theorem orderly_exportLine : Orderly inner [.statement [exportLine]] := by
  intro x hx
  obtain rfl := List.mem_singleton.1 hx
  exact endLines_exportLine.keeps

theorem endLines_genericTail (q : SetupScript) : EndLines inner (s.genericTail q) := by
  unfold genericTail
  extract_lets own
  exact EndLines.behind (endLines_line _ rfl) _

theorem endLines_genericHead (parameters : BlockAttr) : EndLines inner (genericHead parameters) :=
  EndLines.behind (EndLines.behind (endLines_line _ rfl) [_]) _

theorem orderly_genericSections (h : inner.atLineStart = true) (q : SetupScript) (parameters : BlockAttr) (self : Option String) :
    Orderly inner (s.genericSections q parameters self) := by
  intro x hx
  simp only [genericSections, List.mem_append, List.mem_singleton] at hx
  rcases hx with (rfl | hx) | rfl
  · exact ((endLines_genericHead parameters).behind _).keeps
  · exact s.orderly_bodySections h q self x hx
  · exact (s.endLines_genericTail q).keeps

end

/-! ## Where copied parts meet statements -/

section

variable {inner : Code} {w : Written} (s : Scene)

theorem beginLines_bodySections (h : inner.atLineStart = true) (q : SetupScript) (self : Option String) :
    BeginLines inner w (s.bodySections q self) ∧ (w.then inner (piecesOf (s.bodySections q self))).code.atLineStart = true := by
  have hall := s.orderly_bodySections h q self
  have hfirst : EndLines inner (Edit.copyWith q.part ⟨q.bodyStart, q.block.size⟩ (SetupEdits.all s q) ++ [.freshLine]) :=
    endLines_freshLine.behind _
  unfold bodySections at hall ⊢
  rw [List.cons_append, beginLines_cons, piecesOf_cons]
  have hrest : Orderly inner _ := fun x hx => hall x (List.mem_cons_of_mem _ hx)
  exact ⟨⟨fun hx => absurd hx Bool.false_ne_true, hrest.beginLines (hfirst w)⟩, hfirst.append hrest.keeps w⟩

theorem beginLines_exportSections (p : PlainScript) (d : Script.DefaultExport) (key : String) {between : List Section}
    (hb : Orderly inner between) : BeginLines inner w (s.exportSections p d key between) ∧
      ((w.then inner (piecesOf (s.exportSections p d key between))).code.atLineStart = true ↔
        Text.EndsLine (p.block.textAt ⟨d.range.stop, p.block.size⟩)) := by
  have hfront : EndLines inner [p.part ⟨0, (exportedValue d).1.start⟩, .text ("\x7b\x7d as typeof " ++ name "export"),
      p.part ⟨(exportedValue d).1.stop, d.range.stop⟩, .text ";\n"] := EndLines.behind (endLines_text (t := ";\n") rfl) [_, _, _]
  have hvalue : EndLines inner (declaration SourceId.script p.block.size key ++ s.wrapped p d ++ [.text ";\n"]) :=
    EndLines.behind (endLines_text (t := ";\n") rfl) _
  constructor
  · rw [exportSections, List.append_assoc, List.singleton_append, beginLines_cons, beginLines_append, beginLines_cons, beginLines_cons]
    refine ⟨fun h => absurd h Bool.false_ne_true, hb.beginLines (hfront w), fun _ => ?_, fun h => absurd h Bool.false_ne_true,
      beginLines_nil⟩
    exact hb.keeps _ (hfront w)
  · have hpieces : piecesOf (s.exportSections p d key between) = ([p.part ⟨0, (exportedValue d).1.start⟩,
        .text ("\x7b\x7d as typeof " ++ name "export"), p.part ⟨(exportedValue d).1.stop, d.range.stop⟩, .text ";\n"] ++
        piecesOf between ++ (declaration SourceId.script p.block.size key ++ s.wrapped p d ++ [.text ";\n"])) ++
        [p.part ⟨d.range.stop, p.block.size⟩] := by
      simp [exportSections]
    rw [hpieces, Written.then_append]
    exact atLineStart_copied (hvalue.behind _ w) _ _ _

/-- The text that is copied directly before the first statement that does not take care of the line before it. -/
def joint (s : Scene) : String :=
  match s.script, s.setup with
  | some p, setup =>
    match source? p, setup, p.exported with
    | some _, _, _ => ""
    | none, some _, some d => p.block.textAt ⟨d.range.stop, p.block.size⟩
    | none, some q, none => q.block.textAt ⟨0, q.bodyStart⟩ ++ p.block.textAt ⟨0, p.block.size⟩
    | none, none, some _ => ""
    | none, none, none => p.block.textAt ⟨0, p.block.size⟩
  | none, some q => if (q.block.attr? "generic").isSome then q.block.textAt ⟨0, q.bodyStart⟩ else ""
  | none, none => ""

theorem beginLines_plainSections (h : inner.atLineStart = true) (hw : w.code.atLineStart = true) (p : PlainScript) :
    BeginLines inner w (s.plainSections p) ↔ Text.EndsLine (if p.exported.isSome then "" else p.block.textAt ⟨0, p.block.size⟩) := by
  unfold plainSections
  cases p.exported with
  | some d => simpa using (s.beginLines_exportSections p d "export" (s.orderly_templateSections h _)).1
  | none =>
    have hrest := (s.orderly_templateSections h (some (name "export"))).append orderly_exportLine
    have hall := hrest.cons (x := .statement (declaration SourceId.script p.block.size "export" ++
      [.text ("(await import(\"" ++ s.options.lib ++ "\")).defineComponent(\x7b\x7d);\n")])) ((endLines_line _ rfl).behind _).keeps
    rw [List.append_assoc, List.cons_append, beginLines_cons]
    refine (and_iff_right fun h => absurd h Bool.false_ne_true).trans ?_
    exact (beginLines_statement rfl hall).trans (atLineStart_copied hw _ _ _)

theorem beginLines_setupSections (h : inner.atLineStart = true) (hw : w.code.atLineStart = true) (q : SetupScript) :
    BeginLines inner w (s.setupSections q) ↔
      Text.EndsLine (if (q.block.attr? "generic").isSome then q.block.textAt ⟨0, q.bodyStart⟩ else "") := by
  unfold setupSections
  cases q.block.attr? "generic" with
  | some g =>
    have hall := (s.orderly_genericSections h q g none).append orderly_exportLine
    dsimp only
    rw [List.cons_append, beginLines_cons]
    refine (and_iff_right fun h => absurd h Bool.false_ne_true).trans ?_
    exact (beginLines_statement rfl hall).trans (atLineStart_copied hw _ _ _)
  | none =>
    have hrest : Orderly inner (s.componentSections q (setupExport q) ++ [.statement [exportLine]]) :=
      (s.orderly_componentSections q _).append orderly_exportLine
    dsimp only
    rw [List.cons_append, List.append_assoc, beginLines_cons, beginLines_append]
    have hbody := s.beginLines_bodySections (w := w.then inner (imports q)) h q none
    exact ⟨fun _ => Text.endsLine_empty, fun _ => ⟨fun h => absurd h Bool.false_ne_true, hbody.1, hrest.beginLines hbody.2⟩⟩

/-- What comes behind the plain script when there is a setup script, too. -/
theorem orderly_setupInBoth (h : inner.atLineStart = true) (q : SetupScript) (self : Option String) : ∃ ps ss,
    (match q.block.attr? "generic" with
      | some g => s.genericSections q g self
      | none =>
        [.statement (setupExport q ++ [.text "await (async () => \x7b\n"])] ++ s.bodySections q self ++
        s.componentSections q [.text "return "] ++ [.rest [.text "\x7d)();\n"]]) =
          .statement ps :: ss ∧ Orderly inner (.statement ps :: ss) := by
  cases q.block.attr? "generic" with
  | some g => exact ⟨_, _, rfl, s.orderly_genericSections h q g self⟩
  | none =>
    refine ⟨_, _, rfl, .cons ((endLines_text (t := "await (async () => \x7b\n") rfl).behind _).keeps ?_⟩
    refine ((s.orderly_bodySections h q self).append (s.orderly_componentSections q _)).append ?_
    intro x hx
    obtain rfl := List.mem_singleton.1 hx
    exact (endLines_text rfl).keeps

theorem beginLines_bothSections (h : inner.atLineStart = true) (hw : w.code.atLineStart = true) (p : PlainScript) (q : SetupScript) :
    BeginLines inner w (s.bothSections p q) ↔ Text.EndsLine (match p.exported with
      | some d => p.block.textAt ⟨d.range.stop, p.block.size⟩
      | none => q.block.textAt ⟨0, q.bodyStart⟩ ++ p.block.textAt ⟨0, p.block.size⟩) := by
  unfold bothSections
  obtain ⟨ps, ss, hsections, hall⟩ := s.orderly_setupInBoth h q (p.exported.map fun _ => name "self")
  dsimp only
  rw [hsections, beginLines_cons]
  refine (and_iff_right fun h => absurd h Bool.false_ne_true).trans ?_
  cases p.exported with
  | some d =>
    have hnone : Orderly inner [] := orderly_nil
    have hexport := s.beginLines_exportSections (w := w.then inner (imports q)) p d "self" hnone
    rw [beginLines_append]
    exact (and_iff_right hexport.1).trans ((beginLines_statement rfl hall).trans hexport.2)
  | none =>
    have hrest : Orderly inner (.statement [exportLine] :: .statement ps :: ss) := hall.cons endLines_exportLine.keeps
    rw [List.cons_append, beginLines_cons]
    refine (and_iff_right fun h => absurd h Bool.false_ne_true).trans ?_
    exact (beginLines_statement rfl hrest).trans (atLineStart_copied_copied hw _ _ _ _ _ _)

/-- The statements that are added to the scripts begin lines just when the script text before the first statement that does not take
care of it ends a line. -/
theorem beginLines_sections (h : inner.atLineStart = true) (hw : w.code.atLineStart = true) :
    BeginLines inner w s.sections ↔ Text.EndsLine s.joint := by
  rcases hp : s.script with _ | p
  · rcases hq : s.setup with _ | q
    · simp only [sections, joint, hp, hq]
      exact iff_of_true beginLines_nil Text.endsLine_empty
    · simp only [sections, joint, hp, hq]
      exact s.beginLines_setupSections h hw q
  · rcases hsource : source? p with _ | ⟨path, offset⟩
    · rcases hq : s.setup with _ | q
      · have hplain := s.beginLines_plainSections h hw p
        rcases hd : p.exported with _ | d <;> simp only [sections, joint, hp, hq, hsource, hd] <;> simpa [hd] using hplain
      · have hboth := s.beginLines_bothSections h hw p q
        rcases hd : p.exported with _ | d <;> simp only [sections, joint, hp, hq, hsource, hd] <;> simpa only [hd] using hboth
    · simp only [sections, joint, hp, hsource]
      have hexport : Orderly inner [.statement (reexport path offset)] :=
        .cons (EndLines.behind endLines_exportLine [_, _, _]).keeps orderly_nil
      exact iff_of_true (hexport.beginLines hw) Text.endsLine_empty

end

end Scene

end Generate

end TypedSfc
