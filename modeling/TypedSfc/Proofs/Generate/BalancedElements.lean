import TypedSfc.Generate.Element
import TypedSfc.Proofs.Generate.BalancedEntries

/-!
# Elements leave stacks as they were

An element is written around what stands in it. What it opens there, the scope of a slot or a component, it closes behind that, on every
way through it: also when the parameters of a slot cannot be read, and when its properties are written into a buffer of their own.
-/

namespace TypedSfc

namespace Generate

open Markup (Directive Element Property)

/-! ## Outlets -/

theorem balances_declaredSlot (e : Element) (slots : String) : Balances (declaredSlot e slots) := by
  unfold declaredSlot
  extract_lets stop
  split
  · rename_i p _
    refine .bind (balances_openAt _ _) fun b => .text ?_
    extract_lets rest
    have hrest : ∀ u, Balances (rest u) := fun _ => balances_close b _
    cases p with
    | plain a =>
      dsimp only
      split
      · exact .bind (balances_propertyAccess _ _ _) hrest
      · exact .bind (balances_text _) hrest
    | directive d => exact .text (.bind (balances_bindingValue d) fun _ => .bind (balances_text _) hrest)
  · refine .bind (balances_openAt _ _) fun b => .text (.bind (balances_bounded _ _ _ _) fun _ => ?_)
    exact .text (balances_close b _)

theorem balances_declaredOutlet (e : Element) (slots : String) : Balances (declaredOutlet e slots) := by
  refine .text (.bind (balances_declaredSlot e slots) fun _ => .text (.bind (balances_openAt _ _) fun b => .text ?_))
  exact .bind (balances_entries e _ true) fun _ => .text (.bind (balances_close _ _) fun _ => balances_text _)

theorem balances_noteOutlet (name : String) (offset : Option Nat) (variable' : String) : Balances (noteOutlet name offset variable') :=
  .bind (balances_hoist _) fun _ => balances_of_same fun _ _ => ⟨rfl, rfl, rfl, rfl, rfl, rfl⟩

theorem balances_dynamicOutlet (name : Markup.Expression) (variable' : String) : Balances (dynamicOutlet name variable') := by
  refine .bind balances_fresh fun _ => .text (.bind (balances_expression _ _ _ _) fun _ => .text ?_)
  exact .bind (balances_hoist _) fun _ => .bind (balances_hoist _) fun _ => balances_of_same fun _ _ => ⟨rfl, rfl, rfl, rfl, rfl, rfl⟩

theorem balances_inferredOutlet (e : Element) (variable' : String) : Balances (inferredOutlet e variable') := by
  refine .text (.bind balances_read fun _ => .bind (balances_entries e _ _) fun _ => .text ?_)
  split
  · split <;> exact balances_noteOutlet _ _ _
  · split
    · exact balances_dynamicOutlet _ _
    · exact balances_noteOutlet _ _ _
  · exact balances_noteOutlet _ _ _

theorem balances_outlet (e : Element) {inner : Gen Unit} (hinner : Balances inner) : Balances (outlet e inner) := by
  refine .bind balances_fresh fun _ => .bind balances_read fun _ => .ite ?_ ?_
  · exact .bind (balances_declaredOutlet e _) fun _ => hinner
  · exact .bind (balances_inferredOutlet e _) fun _ => hinner

/-! ## Contents of slots -/

theorem balances_typedParameter (code : String) (start : Nat) (t : Option Span) : Balances (typedParameter code start t) := by
  cases t with
  | none => exact balances_text _
  | some t => exact .text (.bind (balances_mapped _ _ _ _) fun _ => balances_text _)

/-- Parameters that cannot be read are passed over, and nothing is declared for them. -/
theorem balances_slotParameters (x : Markup.Expression) (slotVar : String) : Balances (slotParameters x slotVar) := by
  refine .bind balances_read fun setting => ?_
  split
  · exact balances_pure ()
  · extract_lets start stop types rest
    have hrest : ∀ u, Balances (rest u) := fun _ => .text (balances_declare _)
    refine .bind (balances_captured (balances_expression _ _ _ _)) fun params => .text (.bind (balances_append _) fun _ => .text ?_)
    refine .ite (.text (.bind (balances_openAt _ _) fun b => .text ?_)) (hrest ())
    refine .bind (balances_forIn fun t _ _ => ?_) fun _ => .text (.bind (balances_close _ _) hrest)
    exact .bind (balances_typedParameter _ _ t) fun _ => balances_pure _

theorem balances_slotName (d : Directive) : Balances (slotName d) := by
  unfold slotName
  split
  · exact .ite (balances_objectKey _ _ _ _ _) (balances_objectKey _ _ _ _ _)
  · exact balances_bounded _ _ _ _

theorem balances_slotContent (d : Option Directive) (componentVar : String) {inner : Gen Unit} (hinner : Balances inner) :
    Balances (slotContent d componentVar inner) := by
  refine .bind balances_fresh fun slotVar => ?_
  extract_lets content rest
  have hcontent : ∀ u, Balances (content u) := fun _ => hinner
  have hrest : ∀ u, Balances (rest u) := by
    intro u
    refine .text (.bind (balances_inScope ?_) fun _ => .ite (balances_text _) (balances_pure ()))
    split
    · exact .bind (balances_slotParameters _ _) hcontent
    · exact hcontent ()
  split
  · exact .text (.bind (balances_slotName _) hrest)
  · exact .bind (balances_text _) hrest

/-! ## Native elements -/

theorem balances_propertiesCall (e : Element) : Balances (propertiesCall e) := by
  refine .bind balances_read fun _ => .bind (balances_openAt _ _) fun b => .text (.bind (balances_entries e _ _) fun _ => ?_)
  exact .text (.bind (balances_close _ _) fun _ => .text (balances_pure _))

theorem balances_elementRef (e : Element) : Balances (elementRef e) := by
  unfold elementRef
  split
  · exact balances_pure _
  · exact .bind balances_read fun _ => .whenever (balances_access _) (balances_pure _)

theorem balances_isRoot (e : Element) : Balances (isRoot e) := balances_of_same fun _ _ => ⟨rfl, rfl, rfl, rfl, rfl, rfl⟩

theorem balances_inheritsAttributes (e : Element) : Balances (inheritsAttributes e) :=
  balances_of_same fun _ _ => ⟨rfl, rfl, rfl, rfl, rfl, rfl⟩

theorem balances_noteInheritor (name : String) : Balances (noteInheritor name) :=
  balances_of_same fun _ _ => ⟨rfl, rfl, rfl, rfl, rfl, rfl⟩

theorem balances_noteRootType (type : String) : Balances (noteRootType type) :=
  balances_of_same fun _ _ => ⟨rfl, rfl, rfl, rfl, rfl, rfl⟩

theorem balances_manyMark : Balances manyMark := balances_of_same fun _ _ => ⟨rfl, rfl, rfl, rfl, rfl, rfl⟩

theorem balances_native (e : Element) {inner : Gen Unit} (hinner : Balances inner) : Balances (native e inner) := by
  refine .bind balances_read fun setting => ?_
  extract_lets intrinsics type inherited rooted referred called
  have hrooted : ∀ u, Balances (rooted u) := fun _ =>
    .bind (balances_inheritsAttributes e) fun _ => .whenever (balances_noteInheritor _) hinner
  have hreferred : ∀ u, Balances (referred u) := fun _ =>
    .bind (balances_isRoot e) fun _ => .whenever (balances_noteRootType _) (hrooted ())
  have hcalled : ∀ u, Balances (called u) := by
    intro u
    refine .text (.bind (balances_propertiesCall e) fun _ => .bind (balances_writeLoose _) fun _ => ?_)
    refine .bind (balances_checkDirectives _) fun _ => .bind (balances_elementRef e) fun ref => ?_
    split
    · exact .bind balances_manyMark fun _ => .bind (balances_noteRef _ _ _) hreferred
    · exact hreferred ()
  refine .text (.bind (balances_propertyAccess _ _ _) fun _ => ?_)
  split
  · exact .text (.bind (balances_propertyAccess _ _ _) hcalled)
  · exact hcalled ()

theorem balances_group (e : Element) {inner : Gen Unit} (hinner : Balances inner) : Balances (group e inner) := by
  refine .ite ?_ hinner
  exact .bind balances_read fun _ => .text (.bind (balances_propertiesCall e) fun _ => hinner)

/-! ## Components -/

theorem balances_atBothTags (c : Callee) {g : Nat → Gen Unit} (hg : ∀ start, Balances (g start)) : Balances (atBothTags c g) := by
  refine .bind (hg _) fun _ => ?_
  split
  · exact .text (hg _)
  · exact balances_pure ()

theorem balances_lookUp (variable' : String) (c : Callee) (names : List String) : Balances (lookUp variable' c names) :=
  .bind balances_read fun _ => .text (.bind (balances_quotedKey _ _ _) fun _ => balances_text _)

theorem balances_componentVariable (variable' : String) (c : Callee) : Balances (componentVariable variable' c) := by
  refine .ite ?_ ?_
  · exact .text (.bind (balances_atBothTags c fun _ => balances_expression _ _ _ _) fun _ => balances_text _)
  · refine .bind (balances_of_same fun _ _ => ⟨rfl, rfl, rfl, rfl, rfl, rfl⟩) fun _ => .bind balances_read fun _ => ?_
    split
    · exact .text (.bind (balances_atBothTags c fun _ => balances_camelized _ _ _) fun _ => balances_text _)
    · exact balances_lookUp _ _ _

theorem balances_writeGeneric (g : Generic) : Balances (writeGeneric g) := by
  refine .bind (balances_openAt _ _) fun b => .text (.bind (balances_onCode fun _ => rfl) fun _ => ?_)
  exact .text (balances_close b _)

theorem balances_componentCall (e : Element) (c : Callee) (v : ComponentVars) (props : Code) : Balances (componentCall e c v props) := by
  unfold componentCall
  extract_lets call
  have hcall : ∀ u, Balances (call u) := fun _ =>
    .text (.bind (balances_openAt _ _) fun b => .text (.bind (balances_append _) fun _ => .text (.bind (balances_close _ _) fun _ =>
      balances_text _)))
  refine .bind balances_read fun _ => .text (.text (.text (.bind (balances_bounded _ _ _ _) fun _ => .text ?_)))
  refine .bind balances_currentGeneric fun g => ?_
  split
  · exact .bind (balances_writeGeneric _) hcall
  · exact hcall ()

theorem balances_componentInstance (e : Element) (c : Callee) : Balances (componentInstance e c) := by
  refine .bind (balances_elementRef e) fun ref => .bind balances_read fun _ => .bind (balances_isRoot e) fun _ => .ite ?_ ?_
  · refine .bind balances_fresh fun instance' => .bind balances_contextVar fun _ => .bind balances_manyMark fun _ => .text ?_
    extract_lets rooted
    have hrooted : ∀ u, Balances (rooted u) := fun _ => .ite (balances_noteRootType _) (balances_pure ())
    split
    · exact .bind (balances_hoist instance') fun _ => .bind (balances_noteRef _ _ _) hrooted
    · exact hrooted ()
  · exact balances_pure ()

theorem balances_component (e : Element) (hasChildren : Bool) {inner : Gen Unit} (hinner : Balances inner) :
    Balances (component e hasChildren inner) := by
  unfold component
  extract_lets slot contents
  have hcontents : ∀ u, Balances (contents u) := fun _ =>
    .ite (.bind balances_contextVar fun _ => balances_slotContent _ _ hinner) (balances_pure ())
  refine .bind balances_read fun setting => .bind balances_fresh fun _ => .bind balances_fresh fun _ => .bind balances_fresh fun _ => ?_
  refine .bind balances_fresh fun ctx => .bind balances_fresh fun props => .bind (balances_inComponent ctx props ?_) fun used => ?_
  · refine .bind (balances_componentVariable _ _) fun _ => .bind (balances_captured (balances_entries e _ _)) fun props => ?_
    refine .bind (balances_componentCall e _ _ _) fun _ => .bind (balances_writeLoose _) fun _ => ?_
    refine .bind (balances_componentListeners e _) fun _ => .bind (balances_checkDirectives _) fun _ => ?_
    refine .bind (balances_componentInstance e _) fun _ => .bind (balances_inheritsAttributes e) fun _ => .ite ?_ ?_
    · exact .bind balances_propsVar fun _ => .bind (balances_noteInheritor _) hcontents
    · exact hcontents ()
  · exact .whenever (balances_text _) (.ite (balances_text _) (balances_pure ()))

end Generate

end TypedSfc
