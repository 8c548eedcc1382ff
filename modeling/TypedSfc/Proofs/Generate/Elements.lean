import TypedSfc.Generate.Element
import TypedSfc.Proofs.Generate.Entries
import TypedSfc.Proofs.Generate.Replacing

/-!
# Elements leave groups as they are

Two kinds of code are put together from buffers of their own. The parameters of a slot are an expression, so they have no groups that
could be torn; the properties of a component are written into the call once, where the group of the call is open.
-/

namespace TypedSfc

open Segment

/-! ## Replaced ranges -/

namespace Code

theorem ungrouped_replaceRange {n : Nat} {c : Code} (hc : Ungrouped n c.segments) (source : SourceId) (start stop : Nat) (new : String) :
    Ungrouped n (c.replaceRange source start stop new).2.segments := by
  constructor
  · exact forall_replaceRange source start stop new (fun _ _ h => nomatch h) (fun _ _ _ _ _ h _ => h) hc.1
  · exact forall_replaceRange source start stop new (fun _ => rfl) (fun _ _ _ _ _ h _ => h) hc.2

end Code

namespace Generate

open Markup (Directive Element Property)

variable {n : Nat}

theorem ungrouped_commentTypes (start : Nat) (ts : List (Option Span)) {c : Code} (hc : Ungrouped n c.segments) :
    Ungrouped n (commentTypes start ts c).segments := by
  induction ts generalizing c with
  | nil => exact hc
  | cons t ts ih =>
    cases t with
    | none => exact ih hc
    | some t => exact ih (Code.ungrouped_replaceRange (Code.ungrouped_replaceRange hc _ _ _ _) _ _ _ _)

/-! ## Outlets -/

theorem keeps_declaredSlot (e : Element) (slots : String) : Keeps n (declaredSlot e slots) := by
  unfold declaredSlot
  extract_lets stop
  split
  · rename_i p _
    refine .openAt fun b => .text ?_
    extract_lets rest
    have hrest : ∀ u, Closes n [b] [] (rest u) := fun _ => closes_close b _
    cases p with
    | plain a =>
      dsimp only
      split
      · exact .bind (keeps_propertyAccess _ _ rfl) hrest
      · exact .bind (keeps_text _) hrest
    | directive d => exact .text (.bind (keeps_bindingValue d) fun _ => .bind (keeps_text _) hrest)
  · exact .openAt fun b => .text (.bind (keeps_bounded _ _ _ _) fun _ => .text (closes_close b _))

theorem keeps_declaredOutlet (e : Element) (slots : String) : Keeps n (declaredOutlet e slots) := by
  refine .text (.bind (keeps_declaredSlot e slots) fun _ => .text (.openAt fun b => .text ?_))
  exact .bind (keeps_entries e _ true) fun _ => .text (.close (keeps_text _))

theorem keeps_noteOutlet (name : String) (offset : Option Nat) (variable' : String) : Keeps n (noteOutlet name offset variable') :=
  .bind (keeps_hoist _) fun _ => keeps_modify fun _ => rfl

theorem keeps_dynamicOutlet (name : Markup.Expression) (variable' : String) : Keeps n (dynamicOutlet name variable') := by
  refine .bind keeps_fresh fun _ => .text (.bind (keeps_expression _ _ _ _) fun _ => .text ?_)
  exact .bind (keeps_hoist _) fun _ => .bind (keeps_hoist _) fun _ => keeps_modify fun _ => rfl

theorem keeps_inferredOutlet (e : Element) (variable' : String) : Keeps n (inferredOutlet e variable') := by
  refine .text (.bind keeps_read fun _ => .bind (keeps_entries e _ _) fun _ => .text ?_)
  split
  · split
    · exact keeps_noteOutlet _ _ _
    · exact keeps_noteOutlet _ _ _
  · split
    · exact keeps_dynamicOutlet _ _
    · exact keeps_noteOutlet _ _ _
  · exact keeps_noteOutlet _ _ _

theorem keeps_outlet (e : Element) {inner : Gen Unit} (hinner : Keeps n inner) : Keeps n (outlet e inner) := by
  refine .bind keeps_fresh fun _ => .bind keeps_read fun _ => .ite (fun _ => ?_) fun _ => ?_
  · exact .bind (keeps_declaredOutlet e _) fun _ => hinner
  · exact .bind (keeps_inferredOutlet e _) fun _ => hinner

/-! ## Contents of slots -/

theorem keeps_typedParameter (code : String) (start : Nat) (t : Option Span) : Keeps n (typedParameter code start t) := by
  cases t with
  | none => exact keeps_text _
  | some t => exact .text (.bind (keeps_mapped _ (template_lt n) _ rfl) fun _ => keeps_text _)

/-- A buffer without groups is written like text. -/
theorem keeps_append_ungrouped {c : Code} (hc : Ungrouped (4 + n) c.segments) : Keeps n (onCode (·.append c)) :=
  keeps_onCode fun _ => .ungrouped hc rfl (Nat.le_max_left ..)

theorem keeps_slotParameters (e : Markup.Expression) (slotVar : String) : Keeps n (slotParameters e slotVar) := by
  refine .bind keeps_read fun setting => ?_
  split
  · exact closes_pure ()
  · extract_lets start stop types rest
    have hrest : ∀ u, Keeps n (rest u) := fun _ => .text (keeps_declare _)
    refine .capturedPlain (plain_expression _ _ _ _) fun c a hc => .text ?_
    refine .bind (keeps_append_ungrouped (ungrouped_commentTypes _ _ ?_)) fun _ => .text ?_
    · exact Code.ungrouped_replaceRange (Code.ungrouped_replaceRange hc _ _ _ _) _ _ _ _
    · refine .ite (fun _ => .text (.openAt fun b => .text ?_)) fun _ => hrest ()
      refine .bind (keeps_forIn fun t _ _ => ?_) fun _ => .text (.close (hrest ()))
      exact .bind (keeps_typedParameter _ _ t) fun _ => closes_pure _

theorem keeps_slotName (d : Directive) : Keeps n (slotName d) := by
  unfold slotName
  split
  · exact .ite (fun _ => keeps_objectKey _ _ rfl _ _) fun _ => keeps_objectKey _ _ rfl _ _
  · exact keeps_bounded _ _ _ _

theorem keeps_slotContent (d : Option Directive) (componentVar : String) {inner : Gen Unit} (hinner : Keeps n inner) :
    Keeps n (slotContent d componentVar inner) := by
  refine .bind keeps_fresh fun slotVar => ?_
  extract_lets content rest
  have hcontent : ∀ u, Keeps n (content u) := fun _ => hinner
  have hrest : ∀ u, Keeps n (rest u) := by
    intro _
    refine .text (.bind (keeps_inScope ?_) fun _ => .ite (fun _ => keeps_text _) fun _ => closes_pure _)
    split
    · exact .bind (keeps_slotParameters _ _) hcontent
    · exact hcontent ()
  split
  · exact .text (.bind (keeps_slotName _) hrest)
  · exact .bind (keeps_text _) hrest

/-! ## Native elements -/

theorem keeps_propertiesCall (e : Element) : Keeps n (propertiesCall e) := by
  refine .bind keeps_read fun _ => .openAt fun b => .text (.bind (keeps_entries e _ _) fun _ => ?_)
  exact .text (.close (.text (closes_pure _)))

theorem keeps_elementRef (e : Element) : Keeps n (elementRef e) := by
  unfold elementRef
  split
  · exact closes_pure _
  · exact .bind keeps_read fun _ => .whenever (keeps_access _) (closes_pure _)

theorem keeps_isRoot (e : Element) : Keeps n (isRoot e) := keeps_of_same fun _ _ => rfl

theorem keeps_inheritsAttributes (e : Element) : Keeps n (inheritsAttributes e) := keeps_of_same fun _ _ => rfl

theorem keeps_noteInheritor (name : String) : Keeps n (noteInheritor name) := keeps_modify fun _ => rfl

theorem keeps_noteRootType (type : String) : Keeps n (noteRootType type) := keeps_modify fun _ => rfl

theorem keeps_manyMark : Keeps n manyMark := keeps_of_same fun _ _ => rfl

theorem keeps_native (e : Element) {inner : Gen Unit} (hinner : Keeps n inner) : Keeps n (native e inner) := by
  refine .bind keeps_read fun setting => ?_
  extract_lets intrinsics type inherited rooted referred called
  have hrooted : ∀ u, Keeps n (rooted u) := fun _ =>
    .bind (keeps_inheritsAttributes e) fun _ => .whenever (keeps_noteInheritor _) hinner
  have hreferred : ∀ u, Keeps n (referred u) := fun _ =>
    .bind (keeps_isRoot e) fun _ => .whenever (keeps_noteRootType _) (hrooted ())
  have hcalled : ∀ u, Keeps n (called u) := by
    intro _
    refine .text (.bind (keeps_propertiesCall e) fun _ => .bind (keeps_writeLoose _) fun _ => ?_)
    refine .bind (keeps_checkDirectives _) fun _ => .bind (keeps_elementRef e) fun ref => ?_
    split
    · exact .bind keeps_manyMark fun _ => .bind (keeps_noteRef _ _ _) hreferred
    · exact hreferred ()
  refine .text (.bind (keeps_propertyAccess _ _ rfl) fun _ => ?_)
  split
  · exact .text (.bind (keeps_propertyAccess _ _ rfl) hcalled)
  · exact hcalled ()

theorem keeps_group (e : Element) {inner : Gen Unit} (hinner : Keeps n inner) : Keeps n (group e inner) := by
  refine .ite (fun _ => ?_) fun _ => hinner
  exact .bind keeps_read fun _ => .text (.bind (keeps_propertiesCall e) fun _ => hinner)

/-! ## Components -/

theorem keeps_atBothTags (c : Callee) {g : Nat → Gen Unit} (hg : ∀ at', Keeps n (g at')) : Keeps n (atBothTags c g) := by
  refine .bind (hg _) fun _ => ?_
  split
  · exact .text (hg _)
  · exact closes_pure ()

theorem keeps_lookUp (variable' : String) (c : Callee) (names : List String) : Keeps n (lookUp variable' c names) :=
  .bind keeps_read fun _ => .text (.bind (keeps_quotedKey _ _ _) fun _ => keeps_text _)

theorem keeps_componentVariable (variable' : String) (c : Callee) : Keeps n (componentVariable variable' c) := by
  refine .ite (fun _ => ?_) fun _ => ?_
  · exact .text (.bind (keeps_atBothTags c fun _ => keeps_expression _ _ _ _) fun _ => keeps_text _)
  · refine .bind (keeps_modify fun _ => rfl) fun _ => .bind keeps_read fun _ => ?_
    split
    · exact .text (.bind (keeps_atBothTags c fun _ => keeps_camelized _ _ rfl) fun _ => keeps_text _)
    · exact keeps_lookUp _ _ _

theorem keeps_writeGeneric (g : Generic) : Keeps n (writeGeneric g) :=
  .openAt fun b => .text (.joined List.mem_cons_self (.text (closes_close b _)))

/-- The call writes the properties once, in a group of its own. -/
theorem closes_componentCall (e : Element) (c : Callee) (v : ComponentVars) (props : Code) :
    Closes n [] props.segments (componentCall e c v props) := by
  unfold componentCall
  extract_lets call
  have hcall : ∀ u, Closes n [] props.segments (call u) := fun _ =>
    .text (.openAt fun b => .text (.append (.text (.close (keeps_text _)))))
  refine .bind keeps_read fun _ => .text (.text (.text (.bind (keeps_bounded _ _ _ _) fun _ => .text ?_)))
  refine .bind keeps_currentGeneric fun g => ?_
  split
  · exact .bind (keeps_writeGeneric _) hcall
  · exact hcall ()

theorem keeps_componentInstance (e : Element) (c : Callee) : Keeps n (componentInstance e c) := by
  refine .bind (keeps_elementRef e) fun ref => .bind keeps_read fun _ => .bind (keeps_isRoot e) fun _ => .ite (fun _ => ?_) fun _ => ?_
  · refine .bind keeps_fresh fun instance' => .bind keeps_contextVar fun _ => .bind keeps_manyMark fun _ => .text ?_
    extract_lets rooted
    have hrooted : ∀ u, Keeps n (rooted u) := fun _ => .ite (fun _ => keeps_noteRootType _) fun _ => closes_pure ()
    split
    · exact .bind (keeps_hoist instance') fun _ => .bind (keeps_noteRef _ _ _) hrooted
    · exact hrooted ()
  · exact closes_pure ()

/-- Writes what stands behind the call of a component. -/
def behindCall (e : Element) (hasChildren : Bool) (inner : Gen Unit) (c : Callee) (v : ComponentVars) (loose : List Loose) : Gen Unit := do
  writeLoose loose
  componentListeners e v.component
  checkDirectives e.props
  componentInstance e c
  if ← inheritsAttributes e then noteInheritor (← propsVar)
  let d := e.directive "slot"
  if d.isSome || hasChildren then slotContent d (← contextVar) inner

theorem keeps_behindCall (e : Element) (hasChildren : Bool) {inner : Gen Unit} (hinner : Keeps n inner) (c : Callee) (v : ComponentVars)
    (loose : List Loose) : Keeps n (behindCall e hasChildren inner c v loose) := by
  unfold behindCall
  extract_lets slot contents
  have hcontents : ∀ u, Keeps n (contents u) := fun _ =>
    .ite (fun _ => .bind keeps_contextVar fun _ => keeps_slotContent _ _ hinner) fun _ => closes_pure ()
  refine .bind (keeps_writeLoose loose) fun _ => .bind (keeps_componentListeners e _) fun _ => .bind (keeps_checkDirectives _) fun _ => ?_
  refine .bind (keeps_componentInstance e _) fun _ => .bind (keeps_inheritsAttributes e) fun _ => .ite (fun _ => ?_) fun _ => ?_
  · exact .bind keeps_propsVar fun _ => .bind (keeps_noteInheritor _) hcontents
  · exact hcontents ()

theorem keeps_component (e : Element) (hasChildren : Bool) {inner : Gen Unit} (hinner : Keeps n inner) :
    Keeps n (component e hasChildren inner) := by
  unfold component
  refine .bind keeps_read fun setting => .bind keeps_fresh fun _ => .bind keeps_fresh fun _ => .bind keeps_fresh fun _ => ?_
  refine .bind keeps_fresh fun ctx => .bind keeps_fresh fun props => .bind (keeps_inComponent ctx props ?_) fun used => ?_
  · refine .bind (keeps_componentVariable _ _) fun _ => .captured (keeps_entries e _ _) fun code loose => ?_
    exact .before (closes_componentCall e _ _ code) fun _ => keeps_behindCall e hasChildren hinner _ _ loose
  · exact .whenever (keeps_text _) (.ite (fun _ => keeps_text _) fun _ => closes_pure ())

end Generate

end TypedSfc
