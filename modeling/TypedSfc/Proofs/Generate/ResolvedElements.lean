import TypedSfc.Generate.Element
import TypedSfc.Proofs.Generate.ResolvedEntries

/-!
# Uses of elements

An element makes its own uses in the scopes around it, and those of what stands in it behind them. Only what fills a slot stands in one
more scope: the parameters of the slot are written in it while it is empty, and declared there behind that.
-/

namespace TypedSfc

namespace Generate

open Markup (Directive Element Property)

/-- A generator of what stands in an element makes the uses of its site, wherever that is. No comment waits before it. -/
abbrev Fills (r : Setting) (inner : Gen Unit) (uses : Site → List Use) : Prop :=
  ∀ w : Site, Leads r ⟨w, some []⟩ [] inner (uses w) ⟨w, none⟩ fun _ => True

section

variable {r : Setting} {w : Site} {cs : Option (List (Span × String))} {inner : Gen Unit} {uses : Site → List Use}

/-! ## What is noted -/

theorem quiet_isRoot (e : Element) : Quiet r (isRoot e) := quiet_of_same fun _ => ⟨rfl, rfl, rfl, rfl, rfl, rfl⟩

theorem quiet_inheritsAttributes (e : Element) : Quiet r (inheritsAttributes e) := quiet_of_same fun _ => ⟨rfl, rfl, rfl, rfl, rfl, rfl⟩

theorem quiet_noteInheritor (name : String) : Quiet r (noteInheritor name) := quiet_of_same fun _ => ⟨rfl, rfl, rfl, rfl, rfl, rfl⟩

theorem quiet_noteRootType (type : String) : Quiet r (noteRootType type) := quiet_of_same fun _ => ⟨rfl, rfl, rfl, rfl, rfl, rfl⟩

theorem quiet_manyMark : Quiet r manyMark := quiet_of_same fun _ => ⟨rfl, rfl, rfl, rfl, rfl, rfl⟩

theorem quiet_noteOutlet (name : String) (offset : Option Nat) (variable' : String) : Quiet r (noteOutlet name offset variable') :=
  .bind (quiet_hoist _) fun _ => quiet_of_same fun _ => ⟨rfl, rfl, rfl, rfl, rfl, rfl⟩

/-- A reference is a member of the component, whatever the template declares. -/
theorem resolves_elementRef (e : Element) : Resolves r ⟨w, cs⟩ (elementRef e) (refUses r w e) := by
  unfold elementRef refUses
  cases (e.attr "ref").bind (·.value) with
  | none => exact leads_pure trivial
  | some v =>
    refine .read ?_
    dsimp only
    cases Text.isPlainIdent v.content && !r.setupRefs.contains v.content with
    | true => exact .before (resolves_access _) fun _ => quiet_pure _
    | false => exact leads_pure trivial

/-! ## Outlets -/

theorem resolves_declaredSlot (e : Element) (slots : String) : Resolves r ⟨w, cs⟩ (declaredSlot e slots) (declaredSlotUses w e) := by
  unfold declaredSlot declaredSlotUses
  extract_lets stop
  cases e.props.find? isOutletName with
  | none =>
    refine (Quiet.bind (quiet_openAt _ _) fun b => .bind (quiet_text _) fun _ => ?_).resolves
    exact .bind (quiet_bounded _ _ _ _) fun _ => .bind (quiet_text _) fun _ => quiet_close _ _
  | some p =>
    cases p with
    | plain a =>
      refine .quiet (quiet_openAt _ _) fun b => .text ?_
      dsimp only
      cases a.value with
      | none => exact (Quiet.bind (quiet_text _) fun _ => quiet_close _ _).resolves
      | some v =>
        simp only [Option.toList_some, List.flatMap_singleton]
        exact .before (resolves_propertyAccess _ _ _) fun _ => quiet_close _ _
    | directive d =>
      refine .quiet (quiet_openAt _ _) fun b => .text (.text ?_)
      exact .before (resolves_bindingValue d) fun _ => .bind (quiet_text _) fun _ => quiet_close _ _

theorem resolves_declaredOutlet (e : Element) (slots : String) :
    Resolves r ⟨w, cs⟩ (declaredOutlet e slots) (declaredSlotUses w e ++ entriesUses r w e (withoutName e.props) true) := by
  refine .text (.bind (resolves_declaredSlot e slots) fun _ _ => .text (.quiet (quiet_openAt _ _) fun b => .text ?_))
  exact .before (leaves_entries e _ true) fun _ => .bind (quiet_text _) fun _ => .bind (quiet_close _ _) fun _ => quiet_text _

theorem resolves_dynamicOutlet (name : Markup.Expression) (variable' : String) :
    Resolves r ⟨w, cs⟩ (dynamicOutlet name variable') [w.expression name.content name.offset "" ""] := by
  refine .quiet quiet_fresh fun _ => .text (.before (resolves_expression _ _ _ _) fun _ => .bind (quiet_text _) fun _ => ?_)
  exact .bind (quiet_hoist _) fun _ => .bind (quiet_hoist _) fun _ => quiet_of_same fun _ => ⟨rfl, rfl, rfl, rfl, rfl, rfl⟩

theorem resolves_inferredOutlet (e : Element) (variable' : String) : Resolves r ⟨w, cs⟩ (inferredOutlet e variable')
    (entriesUses r w e e.props (r.options.flag .checkUnknownProps) ++ outletNameUses w e) := by
  refine .text (.read (.bind (leaves_entries e e.props _) fun _ _ => .text ?_))
  unfold outletNameUses
  cases e.props.find? isOutletName with
  | none => exact (quiet_noteOutlet _ _ _).resolves
  | some p =>
    cases p with
    | plain a =>
      dsimp only
      cases a.value with
      | none => exact (quiet_noteOutlet _ _ _).resolves
      | some v => exact (quiet_noteOutlet _ _ _).resolves
    | directive d =>
      dsimp only
      cases d.exp with
      | none => exact (quiet_noteOutlet _ _ _).resolves
      | some x => exact resolves_dynamicOutlet x variable'

theorem leads_outlet (hinner : Fills r inner uses) (e : Element) :
    Leads r ⟨w, some []⟩ [] (outlet e inner) (outletUses r w e ++ uses w) ⟨w, none⟩ fun _ => True := by
  refine .quiet quiet_fresh fun _ => .read ?_
  unfold outletUses
  cases r.hasDefineSlots with
  | true => exact .bind (resolves_declaredOutlet e _) fun _ _ => hinner w
  | false => exact .bind (resolves_inferredOutlet e _) fun _ _ => hinner w

/-! ## Contents of slots -/

/-- The text of the parameters of a slot is written in a buffer of its own, and resolved in the scopes of the site. -/
theorem catches_parameters (x : Markup.Expression) :
    Catches r ⟨w, cs⟩ (expression (parametersText x) (x.offset - 1) "" "") [⟨.parameters x, w.scopes⟩]
      (fun c => ∃ e, c.segments =
        expressionSegments r e w.scopes SourceId.template (parametersText x) (x.offset - 1) Info.checked "" "") fun _ => True := by
  intro s hs hempty
  obtain ⟨hat, haccessed, hcuts⟩ :=
    (notes_expressionIn w.scopes SourceId.template (parametersText x) (x.offset - 1) Info.checked "" "").at hs
  obtain ⟨hsegments, -, -⟩ :=
    writes_expressionIn s.code.effect w.scopes SourceId.template (parametersText x) (x.offset - 1) Info.checked "" "" s rfl hs.1
  rw [hempty, List.nil_append] at hsegments
  refine ⟨hat, ?_, ?_, ⟨s.code.effect, hsegments⟩, trivial⟩
  · rwa [List.flatMap_singleton]
  · rwa [List.any_cons, List.any_nil, Bool.or_false]

theorem quiet_typedParameter (code : String) (start : Nat) (t : Option Span) : Quiet r (typedParameter code start t) := by
  cases t with
  | none => exact quiet_text _
  | some t => exact .bind (quiet_text _) fun _ => .bind (quiet_mapped _ _ _ _) fun _ => quiet_text _

/-- The names of the parameters of a slot are declared behind what is written of the parameters. -/
theorem leads_slotParameters (x : Markup.Expression) (slotVar : String) :
    Leads r ⟨w.within [], cs⟩ [] (slotParameters x slotVar) (parameterUses r (w.within []) x)
      ⟨w.within (slotNames r (some x)), cs⟩ fun _ => True := by
  refine .read ?_
  simp only [parameterUses, slotNames, Option.bind_some]
  split
  · rename_i hps
    rw [show parametersOf? r.reader (parametersText x) = none from hps]
    exact leads_pure trivial
  · rename_i ps hps
    rw [show parametersOf? r.reader (parametersText x) = some ps from hps]
    refine .capturedOnly (catches_parameters x) fun code _ hcode _ => .text ?_
    obtain ⟨e, hcode⟩ := hcode
    have hmakes : Use.Makes r ⟨.parameters x, (w.within []).scopes⟩ (parametersCode x ps code).segments := ⟨ps, hps, e, code, hcode, rfl⟩
    refine .append (.single hmakes) (.text ?_)
    split
    · refine .text (.quiet (quiet_openAt _ _) fun b => .text (.quiet (quiet_forIn fun t _ _ => ?_) fun _ => ?_))
      · exact .bind (quiet_typedParameter _ _ t) fun _ => quiet_pure _
      · exact .text (.quiet (quiet_close _ _) fun _ => .text (leads_declare _))
    · exact .text (leads_declare _)

theorem resolves_slotName (d : Directive) : Resolves r ⟨w, cs⟩ (slotName d) (slotNameUses w d) := by
  unfold slotName slotNameUses
  cases d.arg.filter fun a => !a.content.isEmpty with
  | none => exact (quiet_bounded _ _ _ _).resolves
  | some a => exact .ite (fun _ => resolves_objectKey _ _ _ _ _) fun _ => resolves_objectKey _ _ _ _ _

/-- What fills a slot stands in a scope with the names of its parameters. -/
theorem leads_slotContent (hinner : Fills r inner uses) (d : Option Directive) (componentVar : String) :
    Leads r ⟨w, some []⟩ [] (slotContent d componentVar inner) (slotUses r uses w d) ⟨w, none⟩ fun _ => True := by
  refine .quiet quiet_fresh fun slotVar => ?_
  cases d with
  | none => exact .text (.text (.before (.inScope (hinner (w.within []))) fun _ => quiet_pure ()))
  | some d =>
    rw [slotUses, Option.toList_some, List.flatMap_singleton]
    refine .text (.bind (resolves_slotName d) fun _ _ => .text ?_)
    simp only [Option.bind_some]
    cases d.exp with
    | none => exact .before (.inScope (hinner (w.within []))) fun _ => quiet_text _
    | some x =>
      rw [Option.toList_some, List.flatMap_singleton]
      exact .before (.inScope ((leads_slotParameters x slotVar).bind fun _ _ => hinner _)) fun _ => quiet_text _

/-! ## Native elements -/

theorem leaves_propertiesCall (e : Element) : Leaves r ⟨w, cs⟩ (propertiesCall e)
    (entriesUses r w e e.props (r.options.flag .checkUnknownProps)) (entriesLoose r e e.props) := by
  refine .read (.quiet (quiet_openAt _ _) fun b => .text ((leaves_entries e e.props _).ending fun loose hloose => .text ?_))
  exact .quiet (quiet_close _ _) fun _ => .text (leads_pure hloose)

theorem leads_native (hinner : Fills r inner uses) (e : Element) :
    Leads r ⟨w, some []⟩ [] (native e inner) (nativeUses r uses w e) ⟨w, none⟩ fun _ => True := by
  unfold native nativeUses
  refine .read (.text (.bind (resolves_propertyAccess _ _ _) fun _ _ => ?_))
  extract_lets type last inherits rooted call
  -- What is noted behind the checks, and then what stands in the element.
  have hinherits : ∀ u, Leads r ⟨w, some []⟩ [] (inherits u) (uses w) ⟨w, none⟩ fun _ => True := fun _ =>
    .quiet (quiet_inheritsAttributes e) fun _ => .quietly (quiet_noteInheritor _) (hinner w)
  have hrooted : ∀ u, Leads r ⟨w, some []⟩ [] (rooted u) (uses w) ⟨w, none⟩ fun _ => True := fun _ =>
    .quiet (quiet_isRoot e) fun _ => .quietly (quiet_noteRootType _) (hinherits ())
  have hcall : ∀ u, Leads r ⟨w, some []⟩ [] (call u) (entriesUses r w e e.props (r.options.flag .checkUnknownProps) ++
      (looseUses w (entriesLoose r e e.props) ++ (directivesUses w e.props ++ (refUses r w e ++ uses w)))) ⟨w, none⟩ fun _ => True := by
    refine fun _ => .text (.bind (leaves_propertiesCall e) fun loose hloose => ?_)
    rw [hloose]
    refine .bind (resolves_writeLoose _) fun _ _ => .bind (resolves_checkDirectives _) fun _ _ => ?_
    refine .bind (resolves_elementRef e) fun ref _ => ?_
    cases ref with
    | none => exact hrooted ()
    | some target => exact .quiet quiet_manyMark fun _ => .quiet (quiet_noteRef _ _ _) hrooted
  cases e.endTagOffset r.source with
  | none => exact hcall ()
  | some stop =>
    rw [Option.toList_some, List.flatMap_singleton]
    exact .text (.bind (resolves_propertyAccess _ _ _) fun _ _ => hcall ())

theorem leads_group (hinner : Fills r inner uses) (e : Element) :
    Leads r ⟨w, some []⟩ [] (group e inner) (groupUses r uses w e) ⟨w, none⟩ fun _ => True := by
  unfold group groupUses
  cases e.props.isEmpty with
  | true => exact hinner w
  | false => exact .read (.text (.bind (leaves_propertiesCall e) fun _ _ => hinner w))

/-! ## Components -/

theorem resolves_atBothTags {a : Point} {c : Callee} {g : Nat → Gen Unit} {us : Nat → List Use}
    (hg : ∀ start, Resolves r a (g start) (us start)) : Resolves r a (atBothTags c g) ((c.start :: c.stop.toList).flatMap us) := by
  unfold atBothTags
  rw [List.flatMap_cons]
  refine (hg c.start).bind fun _ _ => ?_
  cases c.stop with
  | none => exact leads_pure trivial
  | some stop =>
    rw [Option.toList_some, List.flatMap_singleton]
    exact .text (hg stop)

/-- Only a component that is called by an expression reads anything to be called. -/
theorem resolves_componentVariable (variable' : String) (c : Callee) :
    Resolves r ⟨w, cs⟩ (componentVariable variable' c) (calleeUses w c) := by
  unfold componentVariable calleeUses
  cases c.isExpression with
  | true =>
    rw [if_pos rfl, if_pos rfl, List.map_eq_flatMap]
    exact .text (.before (resolves_atBothTags fun start => resolves_expression _ _ _ _) fun _ => quiet_text _)
  | false =>
    rw [if_neg Bool.false_ne_true, if_neg Bool.false_ne_true]
    refine .quiet (quiet_of_same fun _ => ⟨rfl, rfl, rfl, rfl, rfl, rfl⟩) fun _ => .read ?_
    dsimp only
    cases (spellings c.code).find? r.setupConsts.contains with
    | some constant =>
      have hnames : Resolves r ⟨w, cs⟩ (atBothTags c fun start => camelized (spelledAs constant c.code) start Info.checked) [] := by
        have htags := resolves_atBothTags (c := c) fun start => (quiet_camelized (r := r) (spelledAs constant c.code) start
          Info.checked).resolves (a := ⟨w, cs⟩)
        rwa [List.flatMap_eq_nil_iff.2 fun _ _ => rfl] at htags
      exact .text (.before hnames fun _ => quiet_text _)
    | none =>
      refine .read (.text (Quiet.bind (quiet_quotedKey _ _ _) fun _ => quiet_text _).resolves)

theorem quiet_writeGeneric (g : Generic) : Quiet r (writeGeneric g) :=
  .bind (quiet_openAt _ _) fun _ => .bind (quiet_text _) fun _ => .bind (quiet_joined _ _ _) fun _ =>
    .bind (quiet_text _) fun _ => quiet_close _ _

/-- The call of a component takes up its properties. -/
theorem leads_componentCall {a : Point} {held : List Use} {props : Code} (hprops : Woven r held props.segments) (e : Element) (c : Callee)
    (v : ComponentVars) : Leads r a held (componentCall e c v props) [] a fun _ => True := by
  unfold componentCall
  extract_lets call
  have hcall : ∀ u, Leads r a held (call u) [] a fun _ => True := by
    refine fun _ => .text (.quiet (quiet_openAt _ _) fun b => .text (.append hprops (.text ?_)))
    exact (Quiet.bind (quiet_close _ _) fun _ => quiet_text _).resolves
  refine .read (.text (.text (.text (.quiet (quiet_bounded _ _ _ _) fun _ => .text (.quiet quiet_currentGeneric fun g => ?_)))))
  cases g with
  | none => exact hcall ()
  | some g => exact .quiet (quiet_writeGeneric g) hcall

theorem resolves_componentInstance (e : Element) (c : Callee) : Resolves r ⟨w, cs⟩ (componentInstance e c) (refUses r w e) := by
  refine .before (resolves_elementRef e) fun ref => .bind quiet_read fun _ => .bind (quiet_isRoot e) fun _ => .ite ?_ (quiet_pure ())
  refine .bind quiet_fresh fun instance' => .bind (quiet_ofComponent _ _) fun _ => ?_
  refine .bind quiet_manyMark fun _ => .bind (quiet_text _) fun _ => ?_
  extract_lets rooted
  have hrooted : ∀ u, Quiet r (rooted u) := fun _ => .ite (quiet_noteRootType _) (quiet_pure ())
  cases ref with
  | none => exact hrooted ()
  | some target => exact .bind (quiet_hoist instance') fun _ => .bind (quiet_noteRef _ _ _) hrooted

/-- A component is called, checked and noted in a scope of its own, in which its slot is filled. -/
theorem leads_component (hinner : Fills r inner uses) (e : Element) (hasChildren : Bool) :
    Leads r ⟨w, some []⟩ [] (component e hasChildren inner) (componentUses r uses w e hasChildren) ⟨w, none⟩ fun _ => True := by
  refine .read (.quiet quiet_fresh fun component => .quiet quiet_fresh fun function => .quiet quiet_fresh fun node => ?_)
  refine .quiet quiet_fresh fun ctx => .quiet quiet_fresh fun props => ?_
  refine .before (.inComponent (Q := fun _ => True) ?_) fun used => ?_
  · refine .bind (resolves_componentVariable _ _) fun _ _ => .captured (leaves_entries e _ _).catches fun code loose hcode hloose => ?_
    rw [hloose]
    refine .idle (leads_componentCall hcode e _ _) fun _ _ => .bind (resolves_writeLoose _) fun _ _ => ?_
    refine .bind (resolves_componentListeners e _) fun _ _ => .bind (resolves_checkDirectives _) fun _ _ => ?_
    refine .bind (resolves_componentInstance e _) fun _ _ => .quiet (quiet_inheritsAttributes e) fun inherits => ?_
    extract_lets d contents
    have hcontents : ∀ u, Leads r ⟨w.inComponent, some []⟩ [] (contents u)
        (if (e.directive "slot").isSome || hasChildren then slotUses r uses w.inComponent (e.directive "slot") else [])
        ⟨w.inComponent, none⟩ fun _ => True := by
      refine fun _ => .ite (fun _ => ?_) fun _ => (leads_pure trivial).unsettled
      exact .quiet (quiet_ofComponent _ _) fun _ => leads_slotContent hinner _ _
    cases inherits with
    | false => exact hcontents ()
    | true => exact .quiet (quiet_ofComponent _ _) fun _ => .quiet (quiet_noteInheritor _) hcontents
  · exact Quiet.whenever (quiet_text _) (.ite (quiet_text _) (quiet_pure ()))

end

end Generate

end TypedSfc
