import TypedSfc.Proofs.Generate.LineStarts
import TypedSfc.Proofs.Generate.Resolving

/-!
# What is shown to a template

The code of a template stands at the end of a section that declares what the template reads from: the type of the members that the
scripts show, and the component, into which a value of that type is merged. Wherever the section stands among the scripts, both
declarations are part of the code as they are written there.
-/

namespace TypedSfc

/-! ## The text of a buffer -/

namespace Code

variable {c c' : Code}

theorem toText_text (c : Code) (t : String) : (c.text t).toText = c.toText ++ t := by
  unfold text
  split
  · rename_i hempty
    rw [String.isEmpty_iff.1 hempty, String.append_empty]
  · exact Segment.contents_snoc c.segments _

theorem toText_append (c other : Code) : (c.append other).toText = c.toText ++ other.toText :=
  Segment.contents_append c.segments other.segments

/-- What is added to a buffer stands behind its text. -/
theorem exists_toText (h : c.segments <+: c'.segments) : ∃ t, c'.toText = c.toText ++ t := by
  obtain ⟨ss, hss⟩ := h
  exact ⟨Segment.contents ss, by rw [toText, ← hss, Segment.contents_append, toText]⟩

/-- Several operands are merged into an object that spreads each of them. -/
theorem toText_spreadMerge (c : Code) {ts : List String} (h : 2 ≤ ts.length) :
    (c.spreadMerge ts).toText = c.toText ++ ("\x7b\n" ++ String.join (ts.map fun t => "..." ++ t ++ ",\n") ++ "\x7d") := by
  have hfold : ∀ (ts : List String) (c : Code), (ts.foldl (fun c t => c.text ("..." ++ t ++ ",\n")) c).toText =
      c.toText ++ String.join (ts.map fun t => "..." ++ t ++ ",\n") := by
    intro ts
    induction ts with
    | nil => exact fun c => (String.append_empty).symm
    | cons t ts ih =>
      intro c
      rw [List.foldl_cons, ih, toText_text, List.map_cons, String.join_cons, String.append_assoc]
  unfold spreadMerge
  split
  · cases h
  · cases Nat.le_of_succ_le_succ h
  · rw [toText_text, hfold, toText_text]
    simp only [String.append_assoc]

theorem prefix_spreadMerge (c : Code) (ts : List String) : c.segments <+: (c.spreadMerge ts).segments := by
  have hfold : ∀ (ts : List String) (c : Code), c.segments <+: (ts.foldl (fun c t => c.text ("..." ++ t ++ ",\n")) c).segments := by
    intro ts
    induction ts with
    | nil => exact fun c => List.prefix_refl _
    | cons t ts ih => exact fun c => (prefix_text c _).trans (ih _)
  unfold spreadMerge
  split
  · exact List.prefix_refl _
  · exact prefix_text _ _
  · exact (prefix_text _ _).trans ((hfold _ _).trans (prefix_text _ _))

end Code

namespace Generate

/-- A piece is written behind what is written. -/
theorem Piece.prefix_write (inner : Code) (w : Written) (p : Piece) : w.code.segments <+: (p.write inner w).code.segments := by
  cases p with
  | text t => exact Code.prefix_text _ _
  | mapped t source offset => exact Code.prefix_mapped _ _ _ _ _
  | copied t source offset =>
    unfold Piece.write
    dsimp only
    split
    · exact List.prefix_refl _
    · exact Code.prefix_mapped _ _ _ _ _
  | bounded t source span info => exact Code.prefix_bounded _ _ _ _ _ _
  | quoted t source span =>
    exact (Code.prefix_opened _ _ _ _).trans
      ((Code.prefix_text _ _).trans ((Code.prefix_joined _ _ _ _).trans ((Code.prefix_text _ _).trans (Code.prefix_closed _ _ _))))
  | merged operands => exact Code.prefix_spreadMerge _ _
  | freshLine =>
    show w.code.segments <+: (if w.code.atLineStart then w.code else w.code.text "\n").segments
    split
    · exact List.prefix_refl _
    · exact Code.prefix_text _ _
  | template => exact List.prefix_append _ _
  | declares type => exact List.prefix_refl _
  | needs type => exact List.prefix_refl _

theorem prefix_then (inner : Code) (ps : List Piece) (w : Written) : w.code.segments <+: (w.then inner ps).code.segments := by
  induction ps generalizing w with
  | nil => exact List.prefix_refl _
  | cons p ps ih => exact (p.prefix_write inner w).trans (ih _)

/-- Pieces are written behind the text that is written. -/
theorem exists_toText_then (inner : Code) (ps : List Piece) (w : Written) :
    ∃ t, (w.then inner ps).code.toText = w.code.toText ++ t := Code.exists_toText (prefix_then inner ps w)

namespace Scene

/-! ## Where the section stands -/

/-- Pieces that hold the section of the template of a scene. -/
def HoldsSection (s : Scene) (ps : List Piece) : Prop := ∃ self front back, ps = front ++ s.templateSection self ++ back

section

variable {s : Scene} {ps : List Piece}

theorem holdsSection_templateSection (s : Scene) (self : Option String) : s.HoldsSection (s.templateSection self) :=
  ⟨self, [], [], by simp⟩

theorem HoldsSection.behind (h : s.HoldsSection ps) (as : List Piece) : s.HoldsSection (as ++ ps) := by
  obtain ⟨self, front, back, rfl⟩ := h
  exact ⟨self, as ++ front, back, by simp only [List.append_assoc]⟩

theorem HoldsSection.before (h : s.HoldsSection ps) (bs : List Piece) : s.HoldsSection (ps ++ bs) := by
  obtain ⟨self, front, back, rfl⟩ := h
  exact ⟨self, front, back ++ bs, by simp only [List.append_assoc]⟩

theorem holdsSection_plainOnly (s : Scene) (p : PlainScript) : s.HoldsSection (s.plainOnly p) := by
  unfold plainOnly
  split
  · exact (((holdsSection_templateSection s _).behind _).before _).before _ |>.before _
  · exact ((holdsSection_templateSection s _).behind _).before _

theorem holdsSection_setupBody (s : Scene) (q : SetupScript) (self : Option String) : s.HoldsSection (s.setupBody q self) :=
  (holdsSection_templateSection s self).behind _

theorem holdsSection_generic (s : Scene) (q : SetupScript) (parameters : BlockAttr) (self : Option String) :
    s.HoldsSection (s.generic q parameters self) :=
  ((holdsSection_setupBody s q self).behind _).before _

theorem holdsSection_setupOnly (s : Scene) (q : SetupScript) : s.HoldsSection (s.setupOnly q) := by
  refine .before (.behind ?_ _) _
  split
  · exact (holdsSection_generic s q _ _).behind _
  · exact (holdsSection_setupBody s q none).before _

theorem holdsSection_both (s : Scene) (p : PlainScript) (q : SetupScript) : s.HoldsSection (s.both p q) := by
  unfold both
  extract_lets self
  refine .behind ?_ _
  split
  · exact holdsSection_generic s q _ self
  · exact (((holdsSection_setupBody s q self).behind _).before _).before _

/-- The section stands among the scripts unless there are none, or the plain one names another file as its source. -/
theorem holdsSection_pieces (hscripts : s.script ≠ none ∨ s.setup ≠ none) (hsource : ∀ p ∈ s.script, source? p = none) :
    s.HoldsSection s.pieces := by
  unfold pieces
  split
  · rename_i hp
    rw [hsource _ hp]
    split
    · rename_i hpath
      cases hpath
    · exact holdsSection_both s _ _
    · exact holdsSection_plainOnly s _
  · exact holdsSection_setupOnly s _
  · rename_i hp hq
    exact (hscripts.elim (· hp) (· hq)).elim

end

/-! ## What the section declares -/

/-- The declaration of the type of the members that are shown. -/
def shownType (lib : String) (names : List String) : String :=
  "type " ++ name "SetupExposed" ++ " = " ++ ("import(\"" ++ lib ++ "\")." ++ "ShallowUnwrapRef<\x7b\n") ++
    String.join (names.map fun n => n ++ ": typeof " ++ n ++ ";\n") ++ "\x7d>;\n"

/-- The declaration of the component, into which some values are merged and, last, a value of the type of the members that are shown. -/
def shownComponent (operands : List String) : String :=
  "const " ++ name "ctx" ++ " = \x7b\n" ++
    String.join ((operands ++ [valueOf (name "SetupExposed")]).map fun t => "..." ++ t ++ ",\n") ++ "\x7d;\n"

/-- Code in which names are shown to the code of a template: the type of the shown members and the component stand before it. -/
def Shows (lib : String) (names : List String) (template code : String) : Prop :=
  ∃ before between operands declarations behind, code =
    before ++ shownType lib names ++ between ++ shownComponent operands ++ declarations ++ template ++ behind

section

variable {s : Scene}

theorem componentOperands_eq (self : Option String) (h : s.exposed ≠ []) :
    ∃ o os, s.componentOperands self = o :: os ++ [valueOf (name "SetupExposed")] := by
  have hexposed : s.exposedType = [name "SetupExposed"] := if_neg (by simpa using h)
  unfold componentOperands
  extract_lets emits props
  rw [hexposed]
  exact ⟨_, _, rfl⟩

/-- What the type of the shown members is declared by. -/
theorem exposedDeclaration_eq (h : s.exposed ≠ []) :
    s.exposedDeclaration = [.declares (name "SetupExposed"), .text (shownType s.options.lib s.exposed)] := by
  have hshown : s.exposed.isEmpty = false := by simpa using h
  rw [exposedDeclaration, hshown, shownType, ofLib]
  simp only [String.append_assoc]
  rfl

/-- The section of a template shows it the names that it reads. -/
theorem shows_section (self : Option String) (h : s.exposed ≠ []) (inner : Code) (w : Written) :
    ∃ between operands declarations, (w.then inner (s.templateSection self)).code.toText =
      w.code.toText ++ shownType s.options.lib s.exposed ++ between ++ shownComponent operands ++ declarations ++ inner.toText := by
  obtain ⟨o, os, hoperands⟩ := componentOperands_eq self h
  -- With what is shown there are two operands or more, so that they are spread; one alone would be written as it is.
  have hlength : 2 ≤ (s.componentOperands self).length := by
    rw [hoperands]
    simp
  obtain ⟨events, hevents⟩ : ∃ events, s.componentDeclaration self = events ++
      [.text ("const " ++ name "ctx" ++ " = "), .merged (s.componentOperands self), .text ";\n"] := ⟨_, rfl⟩
  let shown := w.then inner s.exposedDeclaration
  have hshown : shown.code.toText = w.code.toText ++ shownType s.options.lib s.exposed := by
    show (w.then inner s.exposedDeclaration).code.toText = _
    rw [exposedDeclaration_eq h]
    exact Code.toText_text _ _
  obtain ⟨between, hbetween⟩ := exists_toText_then inner events shown
  have hcomponent : (shown.then inner (s.componentDeclaration self)).code.toText =
      shown.code.toText ++ between ++ shownComponent (o :: os) := by
    rw [hevents, Written.then_append, ← hbetween]
    show ((((shown.then inner events).code.text ("const " ++ name "ctx" ++ " = ")).spreadMerge (s.componentOperands self)).text
      ";\n").toText = _
    rw [Code.toText_text, Code.toText_spreadMerge _ hlength, Code.toText_text, hoperands, shownComponent]
    simp only [String.append_assoc]
    rfl
  obtain ⟨declarations, hdeclarations⟩ := exists_toText_then inner (s.componentsDeclaration ++ s.directivesDeclaration)
    (shown.then inner (s.componentDeclaration self))
  refine ⟨between, o :: os, declarations, ?_⟩
  have hsection : (w.then inner (s.templateSection self)).code = (((shown.then inner (s.componentDeclaration self)).then inner
      (s.componentsDeclaration ++ s.directivesDeclaration)).code.append inner) := by
    simp only [templateSection, Written.then_append]
    rfl
  rw [hsection, Code.toText_append, hdeclarations, hcomponent, hshown]

/-- If names are shown at all, they are shown to the code of the template. -/
theorem shows_write (hexposed : s.exposed ≠ []) (h : s.HoldsSection s.pieces) (inner : Code) :
    Shows s.options.lib s.exposed inner.toText (s.write inner).code.toText := by
  obtain ⟨self, front, back, hpieces⟩ := h
  obtain ⟨between, operands, declarations, hsection⟩ :=
    shows_section self hexposed inner (Written.then { code := inner.continueFrom } inner front)
  obtain ⟨behind, hbehind⟩ := exists_toText_then inner back
    ((Written.then { code := inner.continueFrom } inner front).then inner (s.templateSection self))
  have hwrite : (s.write inner).code = ((Written.then { code := inner.continueFrom } inner s.pieces).code.text
      (HelperType.declarations s.options.lib (Written.ofPieces inner s.pieces).helpers)) := rfl
  rw [hwrite, Code.toText_text, hpieces, Written.then_append, Written.then_append, hbehind, hsection]
  exact ⟨_, between, operands, declarations, behind ++ HelperType.declarations s.options.lib _, String.append_assoc ..⟩

end

end Scene

end Generate

end TypedSfc
