import TypedSfc.Generate.Script
import TypedSfc.Proofs.Generate.Permits

/-!
# The code of the template stands once

The code around a template is a list of pieces, and the code of the template is one of them, or none when the component is exported from
another file. Each other piece maps what a permit allows, and brings groups of its own tokens.
-/

namespace TypedSfc

/-- Texts of the sources below a number may be mapped anywhere. -/
def Permit.below (n : Nat) : Permit := ⟨fun _ source _ => source < n, fun _ _ _ => True, fun _ => True, fun _ => True⟩

namespace Generate

variable {P : Permit} {n : Nat}

/-- Whether a piece is around the template: it is not the code of the template, and what it maps may be mapped. -/
def Piece.Outer (P : Permit) : Piece → Prop
  | .mapped t source offset => P.allows t source offset
  | .copied t source offset => t.isEmpty = false → P.allows t source offset
  | .bounded _ source span info => P.allows "" source span.start ∧ P.allows "" source span.stop ∧ info.policy.isPlain = true
  | .quoted t source span => P.allows "" source span.start ∧ P.allows t source span.start ∧ P.allows "" source span.stop
  | .template => False
  | .text _ | .merged _ | .freshLine | .declares _ | .needs _ => True

/-- Pieces around the template. -/
def Outer (P : Permit) (ps : List Piece) : Prop := ∀ p ∈ ps, p.Outer P

/-- Pieces of which at most one is the code of the template. -/
def Around (P : Permit) (ps : List Piece) : Prop := Outer P ps ∨ ∃ as bs, ps = as ++ .template :: bs ∧ Outer P as ∧ Outer P bs

section

variable (t : String)

@[simp] theorem Piece.outer_text : (Piece.text t).Outer P := trivial

@[simp] theorem Piece.outer_merged (ts : List String) : (Piece.merged ts).Outer P := trivial

@[simp] theorem Piece.outer_freshLine : Piece.freshLine.Outer P := trivial

@[simp] theorem Piece.outer_declares : (Piece.declares t).Outer P := trivial

@[simp] theorem Piece.outer_needs (type : HelperType) : (Piece.needs type).Outer P := trivial

@[simp] theorem Piece.outer_mapped (source : SourceId) (offset : Nat) :
    (Piece.mapped t source offset).Outer P ↔ P.allows t source offset := .rfl

@[simp] theorem Piece.outer_bounded (source : SourceId) (span : Span) (info : Info) : (Piece.bounded t source span info).Outer P ↔
    P.allows "" source span.start ∧ P.allows "" source span.stop ∧ info.policy.isPlain = true := .rfl

end

/-! ## Lists of pieces -/

@[simp] theorem outer_nil : Outer P [] := by simp [Outer]

@[simp] theorem outer_cons {p : Piece} {ps : List Piece} : Outer P (p :: ps) ↔ p.Outer P ∧ Outer P ps := by simp [Outer]

@[simp] theorem outer_append {as bs : List Piece} : Outer P (as ++ bs) ↔ Outer P as ∧ Outer P bs := by
  simp [Outer, or_imp, forall_and]

theorem Outer.around {ps : List Piece} (h : Outer P ps) : Around P ps := .inl h

/-- Pieces around the template, before others. -/
theorem Outer.before {as bs : List Piece} (ha : Outer P as) (hb : Around P bs) : Around P (as ++ bs) := by
  rcases hb with hb | ⟨cs, ds, rfl, hc, hd⟩
  · exact .inl (outer_append.2 ⟨ha, hb⟩)
  · exact .inr ⟨as ++ cs, ds, by simp, outer_append.2 ⟨ha, hc⟩, hd⟩

/-- Pieces around the template, behind others. -/
theorem Around.then {as bs : List Piece} (ha : Around P as) (hb : Outer P bs) : Around P (as ++ bs) := by
  rcases ha with ha | ⟨cs, ds, rfl, hc, hd⟩
  · exact .inl (outer_append.2 ⟨ha, hb⟩)
  · exact .inr ⟨cs, ds ++ bs, by simp, hc, outer_append.2 ⟨hd, hb⟩⟩

/-! ## Pieces and groups -/

theorem adds_writeQuoted (t : String) {source : SourceId} (hs : source < n) (span : Span) (c : Code) :
    Code.Adds n [] [] c (writeQuoted t source span c) :=
  .opened hs (.andThen (Code.adds_text _ _) (.joined List.mem_cons_self (.andThen (Code.adds_text _ _) (.closed (.refl _)))))

/-- A piece around the template leaves groups as they are, if it names a source that every document has. -/
theorem Piece.Outer.adds {p : Piece} (hp : p.Outer (.below 4)) (inner : Code) (w : Written) :
    Code.Adds (4 + n) [] [] w.code (p.write inner w).code := by
  have hlt : ∀ {source : SourceId}, source < 4 → source < 4 + n := fun h => Nat.lt_of_lt_of_le h (Nat.le_add_right 4 n)
  cases p with
  | text t => exact Code.adds_text _ t
  | mapped t source offset => exact Code.adds_mapped _ t (hlt hp) offset rfl
  | copied t source offset =>
    unfold Piece.write
    dsimp only
    split
    · exact .refl _
    · rename_i hempty
      exact Code.adds_mapped _ t (hlt (hp (Bool.eq_false_iff.2 hempty))) offset rfl
  | bounded t source span info => exact Code.adds_bounded _ (hlt hp.1) _ _ _ t
  | quoted t source span => exact adds_writeQuoted t (hlt hp.1) span _
  | merged operands => exact Code.adds_spreadMerge _ operands
  | freshLine =>
    show Code.Adds (4 + n) [] [] w.code (if w.code.atLineStart then w.code else w.code.text "\n")
    split
    · exact .refl _
    · exact Code.adds_text _ _
  | template => exact hp.elim
  | declares type => exact .refl _
  | needs type => exact .refl _

theorem Outer.adds {ps : List Piece} (hps : Outer (.below 4) ps) (inner : Code) (w : Written) :
    Code.Adds (4 + n) [] [] w.code (ps.foldl (Piece.write inner) w).code := by
  induction ps generalizing w with
  | nil => exact .refl _
  | cons p ps ih =>
    obtain ⟨hp, hps⟩ := outer_cons.1 hps
    exact .andThen (hp.adds inner w) (ih hps _)

/-- The code of the template is written at most once, into groups of other tokens. -/
theorem Around.adds {ps : List Piece} (hps : Around (.below 4) ps) (inner : Code) :
    Code.Adds (4 + n) [] inner.segments inner.continueFrom (Written.ofPieces inner ps).code := by
  unfold Written.ofPieces
  rcases hps with hps | ⟨as, bs, rfl, ha, hb⟩
  · exact .drop (hps.adds inner { code := inner.continueFrom })
  · rw [List.foldl_append, List.foldl_cons]
    have hbefore := ha.adds (n := n) inner { code := inner.continueFrom }
    generalize as.foldl (Piece.write inner) { code := inner.continueFrom } = w at hbefore ⊢
    exact .andThen hbefore (.append (hb.adds inner (w.onCode (·.append inner))))

/-! ## What pieces map -/

theorem extends_spreadMerge (c : Code) (ts : List String) : Code.Extends P c (c.spreadMerge ts) := by
  have hfold : ∀ (ts : List String) (c : Code), Code.Extends P c (ts.foldl (fun c t => c.text ("..." ++ t ++ ",\n")) c) := by
    intro ts
    induction ts with
    | nil => exact fun c => .refl c
    | cons t ts ih => exact fun c => (Code.extends_text c _).trans (ih _)
  unfold Code.spreadMerge
  split
  · exact .refl c
  · exact Code.extends_text c _
  · exact (Code.extends_text c _).trans ((hfold _ _).trans (Code.extends_text _ _))

/-- A piece around the template maps what may be mapped. -/
theorem Piece.Outer.extends {p : Piece} (hp : p.Outer P) (inner : Code) (w : Written) :
    Code.Extends P w.code (p.write inner w).code := by
  cases p with
  | text t => exact Code.extends_text _ t
  | mapped t source offset => exact Code.extends_mapped hp rfl
  | copied t source offset =>
    unfold Piece.write
    dsimp only
    split
    · exact .refl _
    · rename_i hempty
      exact Code.extends_mapped (hp (Bool.eq_false_iff.2 hempty)) rfl
  | bounded t source span info => exact Code.extends_bounded t hp.1 hp.2.1 hp.2.2
  | quoted t source span =>
    obtain ⟨hstart, htext, hstop⟩ := hp
    have hopened : Code.Extends P w.code (w.code.opened source span.start Info.checked).2 := Code.extends_opened hstart rfl
    have hjoined := (Code.extends_text (P := P) (w.code.opened source span.start Info.checked).2 "\"").trans
      (Code.extends_joined (b := (w.code.opened source span.start Info.checked).1) htext)
    exact hopened.trans ((hjoined.trans (Code.extends_text _ "\"")).trans (Code.extends_closed hstop))
  | merged operands => exact extends_spreadMerge _ operands
  | freshLine =>
    show Code.Extends P w.code (if w.code.atLineStart then w.code else w.code.text "\n")
    split
    · exact .refl _
    · exact Code.extends_text _ _
  | template => exact hp.elim
  | declares type => exact .refl _
  | needs type => exact .refl _

theorem Outer.extends {ps : List Piece} (hps : Outer P ps) (inner : Code) (w : Written) :
    Code.Extends P w.code (ps.foldl (Piece.write inner) w).code := by
  induction ps generalizing w with
  | nil => exact .refl _
  | cons p ps ih =>
    obtain ⟨hp, hps⟩ := outer_cons.1 hps
    exact (hp.extends inner w).trans (ih hps _)

/-- What is written around a template is written before and behind its code, which stands once or is left out. -/
theorem Around.exists_segments {ps : List Piece} (hps : Around P ps) (inner : Code) :
    ∃ as ms bs, (Written.ofPieces inner ps).code.segments = as ++ ms ++ bs ∧ (ms = inner.segments ∨ ms = []) ∧
      (∀ a ∈ as, P.Admits inner.effect a) ∧ ∀ a ∈ bs, P.Admits inner.effect a := by
  unfold Written.ofPieces
  rcases hps with hps | ⟨before, behind, rfl, hbefore, hbehind⟩
  · obtain ⟨as, has, hadmits⟩ := (hps.extends inner { code := inner.continueFrom }).segments_eq
    exact ⟨as, [], [], by rw [has]; simp [Code.continueFrom], .inr rfl, hadmits, by simp⟩
  · rw [List.foldl_append, List.foldl_cons]
    have hextends := hbefore.extends inner { code := inner.continueFrom }
    generalize before.foldl (Piece.write inner) { code := inner.continueFrom } = w at hextends ⊢
    obtain ⟨as, has, hadmits⟩ := hextends.segments_eq
    obtain ⟨bs, hbs, hadmits'⟩ := (hbehind.extends inner (w.onCode (·.append inner))).segments_eq
    have heffect : (w.onCode (·.append inner)).code.effect = inner.effect := hextends.effect_eq
    refine ⟨as, inner.segments, bs, hbs.trans (congrArg (· ++ bs) ?_), .inl rfl, hadmits, heffect ▸ hadmits'⟩
    show w.code.segments ++ inner.segments = as ++ inner.segments
    rw [has]
    rfl

/-- What is written around a template is what may be mapped, and the code of the template. -/
theorem Around.admits {ps : List Piece} (hps : Around P ps) (inner : Code) :
    ∀ a ∈ (Written.ofPieces inner ps).code.segments, a ∈ inner.segments ∨ P.Admits inner.effect a := by
  obtain ⟨as, ms, bs, hsegments, hms, has, hbs⟩ := hps.exists_segments inner
  intro a ha
  rw [hsegments, List.mem_append, List.mem_append] at ha
  rcases ha with (ha | ha) | ha
  · exact .inr (has a ha)
  · rcases hms with rfl | rfl
    · exact .inl ha
    · exact absurd ha List.not_mem_nil
  · exact .inr (hbs a ha)

end Generate

end TypedSfc
