import TypedSfc.Generate.Expression
import TypedSfc.Proofs.Generate.Closes

/-!
# Stacks are left as they were

A generator pushes onto the frames and the guards of its state, and marks the body of a loop, and it takes back what it did before it
ends. The counters from which names and numbers are taken only go forward. What one step of a generator does to these is said by one
relation between the states around it, which holds of whole generators as it holds of their parts.
-/

namespace TypedSfc

/-! ## Buffers -/

namespace Code

theorem effect_text (c : Code) (t : String) : (c.text t).effect = c.effect := by
  unfold text
  split <;> rfl

theorem effect_bounded (c : Code) (source : SourceId) (start stop : Nat) (i : Info) (t : String) :
    (c.bounded source start stop i t).effect = c.effect := effect_text _ t

theorem effect_quotedKeyAt (c : Code) (key : String) (source : SourceId) (offset : Nat) (i : Info) :
    (c.quotedKeyAt key source offset i).effect = c.effect := by
  show ((((c.opened source offset i).2.text "\"").joined (c.opened source offset i).1 key offset).text "\"").effect = c.effect
  rw [effect_text]
  exact effect_text _ _

theorem effect_literal (c : Code) (t : String) (source : SourceId) (offset : Nat) (i : Info) :
    (c.literal t source offset i).effect = c.effect := by
  unfold literal
  split
  · exact effect_bounded ..
  · rfl

theorem effect_groupParts (c : Code) (source : SourceId) (offset token : Nat) (ps : List (Nat × String)) :
    (c.groupParts source offset token ps).effect = c.effect := by
  induction ps generalizing c with
  | nil => rfl
  | cons p ps ih =>
    cases ps with
    | nil => rfl
    | cons q ps => exact ih _

theorem effect_camelized (c : Code) (name : String) (source : SourceId) (offset : Nat) (i : Info) :
    (c.camelized name source offset i).effect = c.effect := by
  unfold camelized
  split
  · rfl
  · rfl
  · exact effect_groupParts ..

theorem effect_camelizedIn (c : Code) (b : Boundary) (name : String) (offset : Nat) :
    (c.camelizedIn b name offset).effect = c.effect := by
  unfold camelizedIn
  generalize camelParts name = ps
  induction ps generalizing c with
  | nil => rfl
  | cons p ps ih => exact ih _

end Code

namespace Generate

/-! ## States -/

/-- Behind a step the frames, the guards and the mark of a loop are what they were, and no counter went back. An effect that was that of
the frames is so again. -/
structure State.Balanced (s t : State) : Prop where
  frames_eq : t.frames = s.frames
  guards_eq : t.guards = s.guards
  inLoop_eq : t.inLoop = s.inLoop
  effect_eq : s.code.effect = effectOf s.frames → t.code.effect = effectOf t.frames
  temporary_le : s.nextTemporary ≤ t.nextTemporary
  expectation_le : s.nextExpectation ≤ t.nextExpectation

namespace State.Balanced

variable {s t u : State}

theorem refl (s : State) : s.Balanced s := ⟨rfl, rfl, rfl, id, Nat.le_refl _, Nat.le_refl _⟩

theorem trans (h : s.Balanced t) (h' : t.Balanced u) : s.Balanced u :=
  ⟨h'.frames_eq.trans h.frames_eq, h'.guards_eq.trans h.guards_eq, h'.inLoop_eq.trans h.inLoop_eq,
    fun heffect => h'.effect_eq (h.effect_eq heffect), Nat.le_trans h.temporary_le h'.temporary_le,
    Nat.le_trans h.expectation_le h'.expectation_le⟩

/-- A step under an effect that stays in force. -/
theorem same (hframes : t.frames = s.frames) (hguards : t.guards = s.guards) (hloop : t.inLoop = s.inLoop)
    (heffect : t.code.effect = s.code.effect) (htemporary : s.nextTemporary ≤ t.nextTemporary)
    (hexpectation : t.nextExpectation = s.nextExpectation) : s.Balanced t :=
  ⟨hframes, hguards, hloop, fun h => by rw [heffect, hframes, h], htemporary, Nat.le_of_eq hexpectation.symm⟩

/-- Guards that both states have in the same way do not count. -/
theorem withGuards (h : s.Balanced t) (f : List String → List String) :
    State.Balanced { s with guards := f s.guards } { t with guards := f t.guards } :=
  ⟨h.frames_eq, congrArg f h.guards_eq, h.inLoop_eq, h.effect_eq, h.temporary_le, h.expectation_le⟩

end State.Balanced

/-! ## Generators -/

/-- A generator leaves the stacks as they were, from any state. -/
def Balances {α : Type} (g : Gen α) : Prop := ∀ (r : Setting) (s : State), s.Balanced (g.after r s).2

section

variable {α β : Type}

/-! ### Sequences -/

theorem balances_pure (a : α) : Balances (pure a : Gen α) := fun _ s => .refl s

theorem Balances.bind {g : Gen α} {k : α → Gen β} (hg : Balances g) (hk : ∀ a, Balances (k a)) : Balances (g >>= k) :=
  fun r s => (hg r s).trans (hk (g.after r s).1 r (g.after r s).2)

theorem Balances.ite {c : Prop} [Decidable c] {g g' : Gen α} (h : Balances g) (h' : Balances g') : Balances (if c then g else g') := by
  split
  · exact h
  · exact h'

/-- A generator that only runs on a condition, and the rest behind it. -/
theorem Balances.whenever {c : Prop} [Decidable c] {g : Gen Unit} {k : Unit → Gen β} (hg : Balances g) (hk : Balances (k ())) :
    Balances (if c then g >>= k else k ()) := .ite (.bind hg fun _ => hk) hk

theorem balances_forIn {l : List α} {init : β} {f : α → β → Gen (ForInStep β)} (h : ∀ a ∈ l, ∀ b, Balances (f a b)) :
    Balances (forIn l init f) := by
  induction l generalizing init with
  | nil => exact balances_pure init
  | cons a l ih =>
    rw [List.forIn_cons]
    refine .bind (h a (by simp) init) fun step => ?_
    cases step with
    | done b => exact balances_pure b
    | yield b => exact ih fun a' ha' => h a' (by simp [ha'])

/-! ### The state -/

theorem balances_read : Balances (read : Gen Setting) := fun _ s => .refl s

theorem balances_get : Balances (get : Gen State) := fun _ s => .refl s

/-- A generator that changes none of the stacks and counters, and no effect. -/
theorem balances_of_same {g : Gen α} (h : ∀ r s, (g.after r s).2.frames = s.frames ∧ (g.after r s).2.guards = s.guards ∧
    (g.after r s).2.inLoop = s.inLoop ∧ (g.after r s).2.code.effect = s.code.effect ∧ (g.after r s).2.nextTemporary = s.nextTemporary ∧
    (g.after r s).2.nextExpectation = s.nextExpectation) : Balances g := by
  intro r s
  obtain ⟨hframes, hguards, hloop, heffect, htemporary, hexpectation⟩ := h r s
  exact .same hframes hguards hloop heffect (Nat.le_of_eq htemporary.symm) hexpectation

/-! ### Writing -/

theorem balances_onCode {f : Code → Code} (h : ∀ c, (f c).effect = c.effect) : Balances (onCode f) :=
  balances_of_same fun _ s => ⟨rfl, rfl, rfl, h s.code, rfl, rfl⟩

theorem balances_text (t : String) : Balances (text t) := balances_onCode fun c => c.effect_text t

theorem balances_mapped (t : String) (source : SourceId) (offset : Nat) (i : Info) : Balances (mapped t source offset i) :=
  balances_onCode fun _ => rfl

theorem balances_openAt (start : Nat) (i : Info) : Balances (openAt start i) := balances_of_same fun _ _ => ⟨rfl, rfl, rfl, rfl, rfl, rfl⟩

theorem balances_close (b : Boundary) (stop : Nat) : Balances (close b stop) := balances_onCode fun _ => rfl

theorem balances_bounded (start stop : Nat) (i : Info) (t : String) : Balances (bounded start stop i t) :=
  balances_onCode fun c => c.effect_bounded _ _ _ _ _

theorem balances_camelized (name : String) (offset : Nat) (i : Info) : Balances (camelized name offset i) :=
  balances_onCode fun c => c.effect_camelized _ _ _ _

theorem balances_camelizedIn (b : Boundary) (name : String) (offset : Nat) : Balances (onCode (·.camelizedIn b name offset)) :=
  balances_onCode fun c => c.effect_camelizedIn _ _ _

theorem balances_quotedKey (key : String) (offset : Nat) (i : Info) : Balances (quotedKey key offset i) :=
  balances_onCode fun c => c.effect_quotedKeyAt _ _ _ _

theorem balances_checkCut (start stop : Nat) (cs : List Char) : Balances (checkCut start stop cs) :=
  balances_of_same fun _ _ => ⟨rfl, rfl, rfl, rfl, rfl, rfl⟩

theorem balances_append (code : Code) : Balances (onCode (·.append code)) := balances_onCode fun _ => rfl

/-- Text, and then the rest. -/
theorem Balances.text {t : String} {k : Unit → Gen β} (hk : Balances (k ())) : Balances (Generate.text t >>= k) :=
  .bind (balances_text t) fun _ => hk

/-- A generator on a buffer of its own, which begins and ends under the effect in force. -/
theorem balances_captured {g : Gen α} (hg : Balances g) : Balances (captured g) := by
  intro r s
  have h := hg r { s with code := s.code.continueFrom }
  exact ⟨h.frames_eq, h.guards_eq, h.inLoop_eq, fun heffect => heffect.trans (congrArg effectOf h.frames_eq.symm), h.temporary_le,
    h.expectation_le⟩

/-! ### Names and components -/

theorem balances_declare (names : List String) : Balances (declare names) := by
  refine balances_of_same fun r s => ?_
  cases h : s.scopes with
  | nil => exact (after_declare_nil names r h) ▸ ⟨rfl, rfl, rfl, rfl, rfl, rfl⟩
  | cons scope outer => exact (after_declare_cons names r h) ▸ ⟨rfl, rfl, rfl, rfl, rfl, rfl⟩

theorem balances_inScope {g : Gen Unit} (hg : Balances g) : Balances (inScope g) :=
  .bind (balances_of_same fun _ _ => ⟨rfl, rfl, rfl, rfl, rfl, rfl⟩) fun _ => .bind hg fun _ =>
    balances_of_same fun _ _ => ⟨rfl, rfl, rfl, rfl, rfl, rfl⟩

theorem balances_access (name : String) : Balances (access name) := balances_of_same fun _ _ => ⟨rfl, rfl, rfl, rfl, rfl, rfl⟩

/-- A temporary is a step forward of its counter. -/
theorem balances_fresh : Balances fresh := fun _ _ => .same rfl rfl rfl rfl (Nat.le_succ _) rfl

theorem balances_hoist (name : String) : Balances (hoist name) := by
  unfold hoist
  refine .bind balances_get fun s => ?_
  split
  · exact balances_pure _
  · refine .bind balances_fresh fun _ => .bind ?_ fun _ => balances_pure _
    exact balances_of_same fun _ _ => ⟨rfl, rfl, rfl, rfl, rfl, rfl⟩

theorem balances_noteRef (name type : String) (offset : Nat) : Balances (noteRef name type offset) :=
  balances_of_same fun _ _ => ⟨rfl, rfl, rfl, rfl, rfl, rfl⟩

theorem balances_writeGuards : Balances writeGuards :=
  .bind balances_get fun _ => .bind (balances_forIn fun _ _ _ => .text (balances_pure _)) fun _ => balances_pure _

theorem balances_ofComponent (mark : ComponentScope → ComponentScope) (f : ComponentScope → String) : Balances (ofComponent mark f) := by
  refine balances_of_same fun r s => ?_
  rw [ofComponent, after_get_bind]
  split <;> exact ⟨rfl, rfl, rfl, rfl, rfl, rfl⟩

theorem balances_contextVar : Balances contextVar := balances_ofComponent _ _

theorem balances_propsVar : Balances propsVar := balances_ofComponent _ _

theorem balances_inComponent (ctx props : String) {g : Gen Unit} (hg : Balances g) : Balances (inComponent ctx props g) := by
  refine .bind (balances_of_same fun _ _ => ⟨rfl, rfl, rfl, rfl, rfl, rfl⟩) fun _ => .bind hg fun _ => balances_of_same fun r s => ?_
  rw [after_get_bind]
  split <;> exact ⟨rfl, rfl, rfl, rfl, rfl, rfl⟩

theorem balances_currentGeneric : Balances currentGeneric := balances_of_same fun _ _ => ⟨rfl, rfl, rfl, rfl, rfl, rfl⟩

end

/-! ## Expressions -/

theorem balances_piece (p : Placement) (t : List Char) (pos : Nat) (atEnd : Bool) : Balances (piece p t pos atEnd) := by
  refine .bind (balances_checkCut _ _ _) fun _ => .bind (balances_checkCut _ _ _) fun _ => .text ?_
  exact .whenever (balances_mapped _ _ _ _) (balances_text _)

theorem balances_cutPiece (p : Placement) (whole : List Char) (start stop : Nat) (atEnd : Bool) :
    Balances (cutPiece p whole start stop atEnd) := .bind (balances_checkCut _ _ _) fun _ => balances_piece p _ _ _

theorem balances_useName (p : Placement) (whole : List Char) (prev : Nat) (n : Script.Reference) :
    Balances (useName p whole prev n) := by
  unfold useName
  extract_lets stop name last rest
  have hlast : ∀ u, Balances (last u) := fun _ => balances_piece p _ _ _
  have hrest : ∀ u, Balances (rest u) := by
    intro u
    refine .bind balances_read fun setting => .ite ?_ ?_
    · exact .bind (balances_piece p _ _ _) fun _ => balances_text _
    · refine .bind (balances_piece p _ _ _) fun _ => .ite ?_ ?_
      · exact .text (hlast ())
      · exact .bind (balances_access _) fun _ => .text (hlast ())
  refine .ite ?_ ?_
  · exact .bind (balances_cutPiece p _ _ _ _) fun _ => .text (hrest ())
  · exact .bind (balances_cutPiece p _ _ _ _) hrest

theorem balances_useNames (p : Placement) (whole : List Char) (prev : Nat) (ns : List Script.Reference) :
    Balances (useNames p whole prev ns) := by
  induction ns generalizing prev with
  | nil => exact .ite (balances_cutPiece p _ _ _ _) (balances_pure ())
  | cons n ns ih => exact .bind balances_get fun _ => .ite (ih prev) (.bind (balances_useName p _ _ _) fun _ => ih _)

theorem balances_expressionIn (source : SourceId) (code : String) (start : Nat) (i : Info) (front back : String) :
    Balances (expressionIn source code start i front back) := .bind balances_read fun _ => balances_useNames _ _ _ _

theorem balances_expression (code : String) (start : Nat) (front back : String) : Balances (expression code start front back) :=
  balances_expressionIn _ _ _ _ _ _

/-! ## Keys -/

theorem balances_objectKey (code : String) (offset : Nat) (i : Info) (camelize constant : Bool) :
    Balances (objectKey code offset i camelize constant) := by
  unfold objectKey
  split
  · exact .ite (balances_expressionIn _ _ _ _ _ _) (balances_expressionIn _ _ _ _ _ _)
  · refine .ite (.ite (balances_camelized _ _ _) ?_) (.ite (balances_mapped _ _ _ _) (balances_quotedKey _ _ _))
    exact .bind (balances_openAt _ _) fun b => .text (.bind (balances_camelizedIn _ _ _) fun _ => .text (balances_close _ _))

theorem balances_propertyAccess (code : String) (offset : Nat) (i : Info) : Balances (propertyAccess code offset i) := by
  refine .ite (balances_expressionIn _ _ _ _ _ _) (.ite ?_ ?_)
  · exact .text (balances_mapped _ _ _ _)
  · exact .text (.bind (balances_quotedKey _ _ _) fun _ => balances_text _)

end Generate

end TypedSfc
