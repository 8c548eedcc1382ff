import TypedSfc.Generate.Style
import TypedSfc.Proofs.Generate.PermittedTemplates
import TypedSfc.Proofs.Generate.ReadEntries

/-!
# Reads of templates and styles

Elements and nodes account for their reads if what stands in them does, so a template does. The induction is on the tree; which names
are noted when a node is reached does not matter, since none is ever taken back.
-/

namespace TypedSfc

namespace Generate

open Markup (Branch Directive Element Fragment LoopHead Node Property)

section

variable {r : Setting} {known : List String} {inner : Gen Unit}

/-! ## What is noted beside the code -/

theorem accounts_noteRef (name type : String) (offset : Nat) : Accounts r known (noteRef name type offset) :=
  accounts_of_same fun _ => ⟨rfl, List.Subset.refl _⟩

theorem accounts_noteType (name : String) : Accounts r known (noteType name) := accounts_of_same fun _ => ⟨rfl, List.Subset.refl _⟩

theorem accounts_noteInheritor (name : String) : Accounts r known (noteInheritor name) :=
  accounts_of_same fun _ => ⟨rfl, List.Subset.refl _⟩

theorem accounts_noteRootType (type : String) : Accounts r known (noteRootType type) :=
  accounts_of_same fun _ => ⟨rfl, List.Subset.refl _⟩

theorem accounts_manyMark : Accounts r known manyMark := accounts_of_same fun _ => ⟨rfl, List.Subset.refl _⟩

theorem accounts_isRoot (e : Element) : Accounts r known (isRoot e) := accounts_of_same fun _ => ⟨rfl, List.Subset.refl _⟩

theorem accounts_inheritsAttributes (e : Element) : Accounts r known (inheritsAttributes e) :=
  accounts_of_same fun _ => ⟨rfl, List.Subset.refl _⟩

theorem accounts_noteOutlet (name : String) (offset : Option Nat) (variable' : String) :
    Accounts r known (noteOutlet name offset variable') :=
  .then (accounts_hoist _) fun _ => accounts_of_same fun _ => ⟨rfl, List.Subset.refl _⟩

theorem accounts_elementRef (e : Element) : Accounts r known (elementRef e) := by
  unfold elementRef
  split
  · exact accounts_pure _
  · exact .then accounts_read fun _ => .whenever (accounts_access _) (accounts_pure _)

theorem accounts_inComponent (ctx props : String) {g : Gen Unit} (hg : Accounts r known g) :
    Accounts r known (inComponent ctx props g) := by
  refine .then (accounts_of_same fun _ => ⟨rfl, List.Subset.refl _⟩) fun _ => .then hg fun _ => accounts_of_same fun s => ?_
  rw [after_get_bind]
  split <;> exact ⟨rfl, List.Subset.refl _⟩

/-! ## Outlets -/

theorem accounts_declaredSlot (e : Element) {slots : String} (hslots : ¬EndsInOwner slots ∨ slots ∈ r.givenNames) :
    Accounts r known (declaredSlot e slots) := by
  have htext : Accounts r known (text slots) := hslots.elim accounts_textOf accounts_textGiven
  unfold declaredSlot
  extract_lets stop
  cases e.props.find? isOutletName with
  | none =>
    refine .then (accounts_openAt _ _) fun b => .text (endsInDot_append _ rfl) (.then (accounts_bounded _ _ _ (by decide)) fun _ => ?_)
    exact .text rfl (accounts_close _ _)
  | some p =>
    cases p with
    | plain a =>
      refine .then (accounts_openAt _ _) fun b => .then htext fun _ => ?_
      dsimp only
      cases a.value with
      | none => exact .text rfl (accounts_close _ _)
      | some v => exact .then (accounts_propertyAccess _ _ _) fun _ => accounts_close _ _
    | directive d =>
      refine .then (accounts_openAt _ _) fun b => .then htext fun _ => .text rfl ?_
      exact .then (accounts_bindingValue d) fun _ => .text rfl (accounts_close _ _)

theorem accounts_declaredOutlet (e : Element) {slots : String} (hslots : ¬EndsInOwner slots ∨ slots ∈ r.givenNames) :
    Accounts r known (declaredOutlet e slots) := by
  refine .text rfl (.then (accounts_declaredSlot e hslots) fun _ => .text rfl (.then (accounts_openAt _ _) fun b => .text rfl ?_))
  exact .then (leavesDotless_entries e _ true).weaken fun _ => .text rfl (.then (accounts_close _ _) fun _ => accounts_text rfl)

theorem accounts_dynamicOutlet (name : Markup.Expression) (variable' : String) : Accounts r known (dynamicOutlet name variable') := by
  refine .then accounts_fresh fun _ => .text (endsInDot_append _ rfl) ?_
  refine .then (accounts_expression _ _ (by decide) (by decide)) fun _ => .text rfl (.then (accounts_hoist _) fun _ => ?_)
  exact .then (accounts_hoist _) fun _ => accounts_of_same fun _ => ⟨rfl, List.Subset.refl _⟩

theorem accounts_inferredOutlet (e : Element) (variable' : String) : Accounts r known (inferredOutlet e variable') := by
  refine .text (endsInDot_append _ rfl) (.then accounts_read fun _ => .then (leavesDotless_entries e _ _).weaken fun _ => .text rfl ?_)
  split
  · split <;> exact accounts_noteOutlet _ _ _
  · split
    · exact accounts_dynamicOutlet _ _
    · exact accounts_noteOutlet _ _ _
  · exact accounts_noteOutlet _ _ _

/-- The variable that holds the slots has a name of the generated code unless it is given one. -/
theorem slotsName_given (r : Setting) :
    ¬EndsInOwner (r.slotsName.getD (Names.ofKey "slots")) ∨ r.slotsName.getD (Names.ofKey "slots") ∈ r.givenNames := by
  unfold Setting.givenNames
  cases r.slotsName with
  | none => exact .inl (by decide)
  | some name => exact .inr (List.mem_append_left _ List.mem_cons_self)

theorem accounts_outlet (e : Element) (hinner : Accounts r known inner) : Accounts r known (outlet e inner) := by
  refine .then accounts_fresh fun _ => .read (.ite ?_ ?_)
  · exact .then (accounts_declaredOutlet e (slotsName_given r)) fun _ => hinner
  · exact .then (accounts_inferredOutlet e _) fun _ => hinner

/-! ## Contents of slots -/

theorem accounts_typedParameter (code : String) (start : Nat) (t : Option Span) : Accounts r known (typedParameter code start t) := by
  cases t with
  | none => exact accounts_text rfl
  | some t => exact .text rfl (.then (accounts_mapped _ _ _ _) fun _ => accounts_text rfl)

/-- The parameters of a slot read what the buffer does that they are cut out of. -/
theorem accounts_slotParameters (x : Markup.Expression) (slotVar : String) : Accounts r known (slotParameters x slotVar) := by
  refine .read ?_
  split
  · exact accounts_pure ()
  · rename_i ps _
    refine .captured (accounts_expression _ _ (by decide) (by decide)) fun names code _ _ hcode _ => .text rfl ?_
    have hparameters : ReadsOnly r (· ∈ names) (parametersCode x ps code).segments := by
      have hcut := ReadsOnly.parameters (r := r) x ps hcode .nil
      rwa [List.append_nil] at hcut
    refine .then (accounts_append hparameters) fun _ => .text (endsInDot_append _ rfl) ?_
    split
    · refine .text rfl (.then (accounts_openAt _ _) fun b => .text rfl (.then (accounts_forIn fun t _ _ => ?_) fun _ => ?_))
      · exact .then (accounts_typedParameter _ _ t) fun _ => accounts_pure _
      · exact .text rfl (.then (accounts_close _ _) fun _ => .text rfl (accounts_declare _))
    · exact .text rfl (accounts_declare _)

theorem accounts_slotName (d : Directive) : Accounts r known (slotName d) := by
  unfold slotName
  split
  · exact .ite (accounts_objectKey _ _ _ _ _) (accounts_objectKey _ _ _ _ _)
  · exact accounts_bounded _ _ _ (by decide)

theorem accounts_slotContent (d : Option Directive) (componentVar : String) (hinner : Accounts r known inner) :
    Accounts r known (slotContent d componentVar inner) := by
  refine .then accounts_fresh fun slotVar => ?_
  cases d with
  | none => exact .text rfl (.text (endsInDot_append _ rfl) (.then (accounts_inScope hinner) fun _ => accounts_pure ()))
  | some d =>
    refine .text rfl (.then (accounts_slotName d) fun _ => .text (endsInDot_append _ rfl) ?_)
    refine .then (accounts_inScope ?_) fun _ => accounts_text rfl
    split
    · exact .then (accounts_slotParameters _ slotVar) fun _ => hinner
    · exact hinner

/-! ## Native elements -/

theorem leavesDotless_propertiesCall (e : Element) : LeavesDotless r known (propertiesCall e) := by
  refine .read (.then (accounts_openAt _ _) fun b => .text rfl ((leavesDotless_entries e e.props _).bind fun loose hloose => ?_))
  exact .text rfl (.then (accounts_close _ _) fun _ => .text rfl (answers_pure hloose))

theorem accounts_native (e : Element) (hinner : Accounts r known inner) : Accounts r known (native e inner) := by
  unfold native
  refine .read (.text (endsInDot_append _ rfl) (.then (accounts_propertyAccess _ _ _) fun _ => ?_))
  extract_lets type last inherits rooted call
  have hinherits : ∀ u, Accounts r known (inherits u) := fun _ =>
    .then (accounts_inheritsAttributes e) fun _ => .whenever (accounts_noteInheritor _) hinner
  have hrooted : ∀ u, Accounts r known (rooted u) := fun _ =>
    .then (accounts_isRoot e) fun _ => .whenever (accounts_noteRootType _) (hinherits ())
  have hcall : ∀ u, Accounts r known (call u) := by
    refine fun _ => .text rfl ((leavesDotless_propertiesCall e).bind fun loose hloose => ?_)
    refine .then (accounts_writeLoose hloose) fun _ => .then (accounts_checkDirectives _) fun _ => ?_
    refine .then (accounts_elementRef e) fun ref => ?_
    cases ref with
    | none => exact hrooted ()
    | some target => exact .then accounts_manyMark fun _ => .then (accounts_noteRef _ _ _) hrooted
  cases e.endTagOffset r.source with
  | none => exact hcall ()
  | some stop => exact .text rfl (.then (accounts_propertyAccess _ _ _) hcall)

theorem accounts_group (e : Element) (hinner : Accounts r known inner) : Accounts r known (group e inner) := by
  refine .ite (.read (.text (endsInDot_append _ rfl) ?_)) hinner
  exact .then (leavesDotless_propertiesCall e).weaken fun _ => hinner

/-! ## Components -/

theorem accounts_atBothTags {c : Callee} {g : Nat → Gen Unit} (hg : ∀ start, Accounts r known (g start)) :
    Accounts r known (atBothTags c g) := by
  refine .then (hg c.start) fun _ => ?_
  cases c.stop with
  | none => exact accounts_pure ()
  | some stop => exact .text rfl (hg stop)

theorem accounts_lookUp (variable' : String) (c : Callee) (names : List String) : Accounts r known (lookUp variable' c names) :=
  .read (.text (endsInDot_append _ rfl) (.then (accounts_quotedKey _ _ _) fun _ => accounts_text rfl))

theorem accounts_componentVariable (variable' : String) (c : Callee) : Accounts r known (componentVariable variable' c) := by
  refine .ite (.text (endsInDot_append _ rfl) ?_) (.then (accounts_of_same fun _ => ⟨rfl, List.Subset.refl _⟩) fun _ => .read ?_)
  · exact .then (accounts_atBothTags fun _ => accounts_expression _ _ (by decide) (by decide)) fun _ => accounts_text rfl
  · dsimp only
    split
    · refine .text (endsInDot_append _ rfl) ?_
      exact .then (accounts_atBothTags fun _ => accounts_camelized _ _ _) fun _ => accounts_text rfl
    · exact accounts_lookUp _ _ _

theorem accounts_writeGeneric (g : Generic) : Accounts r known (writeGeneric g) :=
  .then (accounts_openAt _ _) fun _ => .text rfl (.then (accounts_onCode fun c => c.addsOwn_joined _ _ _) fun _ =>
    .text rfl (accounts_close _ _))

/-- The call of a component takes up its properties. -/
theorem accounts_componentCall {props : Code} (hprops : ReadsOnly r (· ∈ known) props.segments) (e : Element) (c : Callee)
    {v : ComponentVars} (hnode : '.' ∉ v.node.toList) (hfunction : '.' ∉ v.function.toList) :
    Accounts r known (componentCall e c v props) := by
  unfold componentCall
  extract_lets call
  have hcall : ∀ u, Accounts r known (call u) := fun _ =>
    .text rfl (.then (accounts_openAt _ _) fun b => .text rfl (.then (accounts_append hprops) fun _ => .text rfl
      (.then (accounts_close _ _) fun _ => accounts_text (endsInDot_append _ rfl))))
  have hvariable : Accounts r known (text (" = " ++ v.function)) := by
    refine accounts_textOf (not_endsInOwner_of_notMem ?_)
    rw [String.toList_append, List.mem_append]
    exact not_or.2 ⟨by decide, hfunction⟩
  refine .read (.text rfl (.text (endsInDot_append _ rfl) (.text rfl ?_)))
  refine .then (accounts_bounded _ _ _ (not_endsInOwner_of_notMem hnode)) fun _ => .then hvariable fun _ => ?_
  refine .then (accounts_of_same fun _ => ⟨rfl, List.Subset.refl _⟩) fun g => ?_
  cases g with
  | none => exact hcall ()
  | some g => exact .then (accounts_writeGeneric g) hcall

theorem accounts_componentInstance (e : Element) (c : Callee) : Accounts r known (componentInstance e c) := by
  refine .then (accounts_elementRef e) fun ref => .then accounts_read fun _ => .then (accounts_isRoot e) fun _ => .ite ?_ (accounts_pure ())
  refine .then accounts_fresh fun instance' => .then (accounts_ofComponent _ _) fun _ => ?_
  refine .then accounts_manyMark fun _ => .text (endsInDot_append _ rfl) ?_
  extract_lets rooted
  have hrooted : ∀ u, Accounts r known (rooted u) := fun _ => .ite (accounts_noteRootType _) (accounts_pure ())
  cases ref with
  | none => exact hrooted ()
  | some target => exact .then (accounts_hoist instance') fun _ => .then (accounts_noteRef _ _ _) hrooted

theorem accounts_component (e : Element) (hasChildren : Bool) (hinner : ∀ names, Accounts r names inner) :
    Accounts r known (component e hasChildren inner) := by
  refine .read (.then accounts_fresh fun component => answers_fresh.bind fun function hfunction => answers_fresh.bind fun node hnode => ?_)
  refine .then accounts_fresh fun ctx => .then accounts_fresh fun props => .then (accounts_inComponent _ _ ?_) fun used => ?_
  · refine .then (accounts_componentVariable _ _) fun _ => .captured (leavesDotless_entries e _ _) fun names code loose _ hcode hloose => ?_
    refine .then (accounts_componentCall hcode e _ hnode hfunction) fun _ => .then (accounts_writeLoose hloose) fun _ => ?_
    refine .then (accounts_componentListeners e _) fun _ => .then (accounts_checkDirectives _) fun _ => ?_
    refine .then (accounts_componentInstance e _) fun _ => .then (accounts_inheritsAttributes e) fun inherits => ?_
    extract_lets d contents
    have hcontents : ∀ u, Accounts r names (contents u) := fun _ =>
      .ite (.then (accounts_ofComponent _ _) fun _ => accounts_slotContent _ _ (hinner names)) (accounts_pure ())
    exact .ite (.then (accounts_ofComponent _ _) fun _ => .then (accounts_noteInheritor _) hcontents) (hcontents ())
  · have htypes : ∀ t u : String, Accounts r known (text (t ++ (u ++ ">;\n"))) := fun t u =>
      accounts_text (endsInDot_append t (endsInDot_append u rfl))
    exact .whenever (htypes _ _) (.ite (htypes _ _) (accounts_pure ()))

/-! ## Nodes -/

theorem accounts_enter : Accounts r known enter := by
  refine accounts_of_same fun s => ?_
  rw [enter, after_get_bind]
  split
  dsimp only
  split <;> exact ⟨rfl, List.Subset.refl _⟩

/-- The marker of an expectation reads nothing. -/
theorem accounts_leave : Accounts r known leave := by
  intro s hs
  rw [leave, after_get_bind]
  cases s.frames.head?.bind (·.expects) with
  | none => exact accounts_pure () (State.withFrames { s with pending := [] } s.frames.tail) hs
  | some x =>
    have hmarker : Accounts r known (bounded x.span.start x.span.stop (Info.ofPolicy (.unused x.number none)) "// @ts-expect-error" >>=
        fun _ => text "\n;\n") := .then (accounts_bounded _ _ _ (by decide)) fun _ => accounts_text rfl
    exact hmarker (State.withFrames { s with pending := [] } s.frames.tail) hs

theorem accounts_asNode {g : Gen Unit} (hg : Accounts r known g) : Accounts r known (asNode g) :=
  .then accounts_enter fun _ => .ite (.then hg fun _ => accounts_leave) (accounts_pure _)

theorem accounts_interpolation (x : Markup.Expression) : Accounts r known (interpolation x) :=
  .then accounts_read fun _ => accounts_expression _ _ (by decide) (by decide)

theorem accounts_condition (x : Markup.Expression) : Accounts r known (condition x) := by
  refine .captured (accounts_expression _ _ (by decide) (by decide)) fun names code _ _ hcode _ => ?_
  exact .then (accounts_of_same fun _ => ⟨rfl, List.Subset.refl _⟩) fun _ => .then (accounts_append hcode) fun _ => accounts_text rfl

theorem accounts_branch (isFirst : Bool) (x : Option Markup.Expression) (hinner : Accounts r known inner) :
    Accounts r known (branch isFirst x inner) := by
  have hword : endsInDot (branchWord isFirst x.isSome) = some false := by
    cases isFirst <;> cases x.isSome <;> rfl
  unfold branch
  extract_lets body
  have hbody : ∀ u, Accounts r known (body u) := fun _ =>
    .text rfl (.then hinner fun _ => .text rfl (.ite (accounts_of_same fun _ => ⟨rfl, List.Subset.refl _⟩) (accounts_pure _)))
  refine .text hword ?_
  cases x with
  | none => exact hbody ()
  | some x => exact .then (accounts_condition x) hbody

theorem accounts_keepingGuards {g : Gen Unit} (hg : Accounts r known g) : Accounts r known (keepingGuards g) :=
  .then accounts_get fun _ => .then hg fun _ => accounts_of_same fun _ => ⟨rfl, List.Subset.refl _⟩

theorem accounts_loopNames (h : LoopHead) : Accounts r known (loopNames h) := by
  unfold loopNames
  cases h.aliasSpan with
  | none => exact accounts_pure ()
  | some span => exact .then accounts_read fun _ => .then (accounts_declare _) fun _ => accounts_mapped _ _ _ _

theorem accounts_asLoopBody {g : Gen Unit} (hg : Accounts r known g) : Accounts r known (asLoopBody g) :=
  .then accounts_get fun _ => .then (accounts_of_same fun _ => ⟨rfl, List.Subset.refl _⟩) fun _ => .then hg fun _ =>
    accounts_of_same fun _ => ⟨rfl, List.Subset.refl _⟩

theorem accounts_loop (h : LoopHead) (hinner : Accounts r known inner) : Accounts r known (loop h inner) := by
  have hbody : Accounts r known (text ") \x7b\n" >>= fun _ => asLoopBody inner >>= fun _ => text "\x7d\n") :=
    .text rfl (.then (accounts_asLoopBody hinner) fun _ => accounts_text rfl)
  refine accounts_inScope (.text rfl (.then (accounts_loopNames h) fun _ => .text rfl ?_))
  cases h.source with
  | none => exact .text rfl hbody
  | some x => exact .text rfl (.then (accounts_expression _ _ (by decide) (by decide)) fun _ => .text rfl hbody)

theorem accounts_element (e : Element) (hasChildren : Bool) (hinner : ∀ names, Accounts r names inner) :
    Accounts r known (element e hasChildren inner) := by
  unfold element
  split
  · exact accounts_outlet e (hinner known)
  · exact accounts_native e (hinner known)
  · exact accounts_component e hasChildren hinner
  · split
    · exact accounts_group e (hinner known)
    · refine .then accounts_get fun _ => .ite (accounts_group e (hinner known)) ?_
      exact .then (accounts_ofComponent _ _) fun _ => accounts_slotContent _ _ (hinner known)

mutual

theorem accounts_node (known : List String) (x : Node) : Accounts r known (node x) := by
  cases x with
  | comment span data => exact accounts_of_same fun _ => ⟨rfl, List.Subset.refl _⟩
  | text span data => exact accounts_asNode (accounts_pure ())
  | interpolation span e => exact accounts_asNode (accounts_interpolation e)
  | element e children => exact accounts_asNode (accounts_element e _ fun names => accounts_nodes names children)
  | loop span h children => exact accounts_asNode (accounts_loop h (accounts_nodes known children))
  | chain span bs => exact accounts_asNode (accounts_keepingGuards (accounts_branches known true bs))

theorem accounts_nodes (known : List String) (xs : List Node) : Accounts r known (nodes xs) := by
  cases xs with
  | nil => exact accounts_pure ()
  | cons x xs => exact .then (accounts_node known x) fun _ => accounts_nodes known xs

theorem accounts_branches (known : List String) (isFirst : Bool) (bs : List Branch) : Accounts r known (branches isFirst bs) := by
  cases bs with
  | nil => exact accounts_pure ()
  | cons b bs =>
    obtain ⟨span, x, children⟩ := b
    exact .then (accounts_branch isFirst x (accounts_nodes known children)) fun _ => accounts_branches known false bs

end

/-! ## Declarations behind the nodes -/

theorem accounts_hoistedVariables : Accounts r known hoistedVariables :=
  .then accounts_get fun _ => .ite (accounts_text (endsInDot_append _ rfl)) (accounts_pure ())

theorem accounts_slotPart (o : SlotOutlet) : Accounts r known (slotPart o) := by
  unfold slotPart
  extract_lets type
  have htype : ∀ u, Accounts r known (type u) := fun _ => accounts_text (endsInDot_append _ rfl)
  refine .text rfl ?_
  cases o.offset with
  | none => exact .text rfl (htype ())
  | some offset => exact .ite (.text rfl (htype ())) (.then (accounts_objectKey _ _ _ _ _) htype)

theorem accounts_slotsType : Accounts r known slotsType := by
  refine .then accounts_get fun s => .then accounts_read fun _ => .ite ?_ (accounts_pure ())
  refine .then (accounts_noteType _) fun _ => .text rfl (.then (accounts_forIn fun _ _ _ => ?_) fun _ => ?_)
  · exact .text (endsInDot_append _ rfl) (accounts_pure _)
  · refine .then (accounts_forIn fun o _ _ => ?_) fun _ => accounts_text rfl
    exact .then (accounts_slotPart o) fun _ => accounts_pure _

theorem accounts_inheritedType : Accounts r known inheritedType := by
  refine .then accounts_get fun _ => .ite (.then (accounts_noteType _) fun _ => ?_) (accounts_pure ())
  exact accounts_text (endsInDot_append _ rfl)

theorem accounts_refTargets (name : String) (isFirst : Bool) (ts : List RefTarget) : Accounts r known (refTargets name isFirst ts) := by
  induction ts generalizing isFirst with
  | nil => exact accounts_pure ()
  | cons t ts ih =>
    unfold refTargets
    extract_lets target
    have htarget : ∀ u, Accounts r known (target u) := fun _ =>
      .text rfl (.then (accounts_objectKey _ _ _ _ _) fun _ => .text (endsInDot_append _ rfl) (ih false))
    exact .ite (.text rfl (htarget ())) (htarget ())

theorem accounts_refPart (name : String) (ts : List RefTarget) : Accounts r known (refPart name ts) := by
  refine .text rfl (.whenever (accounts_text rfl) (.then (accounts_refTargets name true ts) fun _ => ?_))
  exact .ite (accounts_text rfl) (accounts_pure ())

theorem accounts_refsType : Accounts r known refsType := by
  refine .then accounts_get fun _ => .ite (.then (accounts_noteType _) fun _ => .text rfl ?_) (accounts_pure ())
  refine .then (accounts_forIn fun x _ _ => ?_) fun _ => accounts_text rfl
  exact .then (accounts_refPart x.1 x.2) fun _ => accounts_pure _

theorem accounts_rootType : Accounts r known rootType := by
  refine .then accounts_get fun _ => .then accounts_read fun _ => .ite (.then (accounts_noteType _) fun _ => ?_) (accounts_pure ())
  exact accounts_text (endsInDot_append _ rfl)

theorem accounts_dollarMembers : Accounts r known dollarMembers :=
  .then accounts_read fun _ => .then accounts_get fun _ => .ite (accounts_text (endsInDot_append _ rfl)) (accounts_pure ())

/-! ## Templates and styles -/

theorem accounts_templateAround (hinner : Accounts r known inner) : Accounts r known (templateAround inner) := by
  refine .then accounts_read fun _ => accounts_inScope (.then (accounts_declare _) fun _ => .then hinner fun _ => ?_)
  refine .then accounts_hoistedVariables fun _ => .then accounts_slotsType fun _ => .then accounts_inheritedType fun _ => ?_
  exact .then accounts_refsType fun _ => .then accounts_rootType fun _ => accounts_dollarMembers

theorem accounts_template (f : Option Fragment) : Accounts r known (template f) := by
  cases f with
  | none =>
    rw [template_none]
    exact accounts_templateAround (accounts_pure ())
  | some f =>
    rw [template_eq]
    exact accounts_templateAround (accounts_nodes known f.nodes)

theorem accounts_classPart (source : SourceId) (x : StyleRef) : Accounts r known (classPart source x) := by
  unfold classPart
  split
  · exact .text rfl (.then (accounts_mapped _ _ _ _) fun _ => accounts_text rfl)
  · exact accounts_pure ()

theorem accounts_moduleMember (s : StyleBlock × Nat) : Accounts r known (moduleMember s) := by
  unfold moduleMember
  split
  · exact accounts_pure ()
  · refine .text (endsInDot_append _ rfl) (.then accounts_read fun _ => .whenever (accounts_text rfl) (.text rfl ?_))
    exact .then (accounts_forM fun x _ => accounts_classPart _ x) fun _ => accounts_text rfl

theorem accounts_moduleTypes (ss : List StyleBlock) : Accounts r known (moduleTypes ss) := by
  refine .ite (.then (accounts_noteType _) fun _ => .text rfl ?_) (accounts_pure ())
  exact .then (accounts_forM fun s _ => accounts_moduleMember s) fun _ => accounts_text rfl

theorem accounts_styleBindings (s : StyleBlock × Nat) : Accounts r known (styleBindings s) :=
  accounts_forM fun _ _ => .then (accounts_expressionIn _ _ _ _ (by decide) (by decide)) fun _ => accounts_text rfl

theorem accounts_styles (ss : List StyleBlock) : Accounts r known (styles ss) := by
  refine .then accounts_read fun _ => accounts_inScope (.then (accounts_declare _) fun _ => .then (accounts_moduleTypes ss) fun _ => ?_)
  exact accounts_forM fun s _ => accounts_styleBindings s

/-- A template reads only what it notes. -/
theorem readsOnly_ofTemplate (s : Setting) (source : String) (f : Option Fragment) :
    ReadsOnly (s.withTemplate source f) (· ∈ (State.ofTemplate s source f {}).accessed) (State.ofTemplate s source f {}).code.segments := by
  have haccounts : Accounts (s.withTemplate source f) [] (template f) := accounts_template f
  obtain ⟨-, ⟨ss, hss, hreads⟩, -⟩ := haccounts { code := {} } (List.nil_subset _)
  have hcode : (State.ofTemplate s source f {}).code.segments = ss := hss
  rw [hcode]
  exact hreads

/-- Styles read only what they note. -/
theorem readsOnly_ofStyles (s : Setting) (ss : List StyleBlock) (code : Code) :
    ReadsOnly s (· ∈ (State.ofStyles s ss code.continueFrom).accessed) (State.ofStyles s ss code.continueFrom).code.segments := by
  have haccounts : Accounts s [] (styles ss) := accounts_styles ss
  obtain ⟨-, ⟨as, has, hreads⟩, -⟩ := haccounts { code := code.continueFrom } (List.nil_subset _)
  have hcode : (State.ofStyles s ss code.continueFrom).code.segments = as := has
  rw [hcode]
  exact hreads

end

end Generate

end TypedSfc
