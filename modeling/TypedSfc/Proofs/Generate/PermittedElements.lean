import TypedSfc.Generate.Element
import TypedSfc.Proofs.Generate.PermittedEntries
import TypedSfc.Proofs.Markup.Trimming

/-!
# What elements map

An element is written around its children: what stands in its opening tag and in the name of its closing tag is mapped before and behind
them. Only a component without children and without a slot of its own leaves its inner generator out.
-/

namespace TypedSfc

namespace Markup

/-- An element whose name stands in its tags, in each spelling that a constant may give it, and whose properties stand in the
template. -/
structure Element.Permitted (P : Permit) (source : List Char) (x : Element) : Prop where
  allows_start : P.allows "" SourceId.template x.span.start
  allows_stop : P.allows "" SourceId.template x.span.stop
  tag_stands : ∀ o ∈ x.tagOffset :: (x.endTagOffset source).toList, P.stands SourceId.template x.tag o
  spelled_allowed : ∀ o ∈ x.tagOffset :: (x.endTagOffset source).toList, ∀ constant ∈ Generate.spellings x.tag,
    Code.PartsAllowed P (Generate.spelledAs constant x.tag) SourceId.template o
  props_permitted : ∀ p ∈ x.props, p.Permitted P

theorem Element.Permitted.directive {P : Permit} {source : List Char} {x : Element} (hx : x.Permitted P source) {name : String}
    {d : Directive} (hd : x.directive name = some d) : d.Permitted P := hx.props_permitted _ (Element.mem_of_directive hd).1

theorem Element.Permitted.attr {P : Permit} {source : List Char} {x : Element} (hx : x.Permitted P source) {name : String}
    {a : Attribute} (ha : x.attr name = some a) : a.Permitted P := by
  obtain ⟨p, hp, hpa⟩ := List.exists_of_findSome?_eq_some ha
  split at hpa
  · split at hpa
    · obtain rfl := Option.some.inj hpa
      exact hx.props_permitted _ hp
    · cases hpa
  · cases hpa

end Markup

namespace Generate

open Markup (Attribute Directive Element Property)

variable {P : Permit} {r : Setting} {e : Option Effect}

/-! ## What is noted -/

/-- A value under a name is one that was there, or the one that is added. -/
theorem of_mem_underName {α : Type} {name : String} {a : α} {es : List (String × List α)} {Q : String → α → Prop}
    (hes : ∀ x ∈ es, ∀ b ∈ x.2, Q x.1 b) (ha : Q name a) : ∀ x ∈ underName name a es, ∀ b ∈ x.2, Q x.1 b := by
  induction es with
  | nil =>
    intro x hx b hb
    obtain rfl := List.mem_singleton.1 hx
    obtain rfl := List.mem_singleton.1 hb
    exact ha
  | cons y es ih =>
    have hrest : ∀ x ∈ es, ∀ b ∈ x.2, Q x.1 b := fun x hx => hes x (List.mem_cons_of_mem _ hx)
    intro x hx b hb
    rw [underName] at hx
    split at hx
    · rename_i hname
      rcases List.mem_cons.1 hx with rfl | hx
      · rcases List.mem_append.1 hb with hb | hb
        · exact hes y List.mem_cons_self b hb
        · rw [List.mem_singleton.1 hb]
          exact hname ▸ ha
      · exact hrest x hx b hb
    · rcases List.mem_cons.1 hx with rfl | hx
      · exact hes x List.mem_cons_self b hb
      · exact ih hrest x hx b hb

theorem puts_noteRef {name : String} (type : String) {offset : Nat} (h : P.stands SourceId.template name offset) :
    Puts P r e (noteRef name type offset) := by
  intro s _ hs
  refine ⟨⟨.same rfl rfl, rfl, rfl, rfl⟩, ⟨hs.slots_stand, ?_, hs.generics_stand⟩, trivial⟩
  exact of_mem_underName (Q := fun name (t : RefTarget) => P.stands SourceId.template name t.offset) hs.refs_stand h

theorem puts_noteOutlet {name : String} {offset : Option Nat} (variable' : String)
    (h : ∀ o ∈ offset, P.stands SourceId.template name o) : Puts P r e (noteOutlet name offset variable') := by
  refine .andThen (puts_hoist _) fun props s _ hs => ?_
  refine ⟨⟨.same rfl rfl, rfl, rfl, rfl⟩, ⟨?_, hs.refs_stand, hs.generics_stand⟩, trivial⟩
  intro o ho
  rcases List.mem_append.1 ho with ho | ho
  · exact hs.slots_stand o ho
  · rw [List.mem_singleton.1 ho]
    exact h

theorem puts_isRoot (x : Element) : Puts P r e (isRoot x) := puts_of_same fun _ => ⟨rfl, rfl, rfl, rfl, rfl, rfl⟩

theorem puts_inheritsAttributes (x : Element) : Puts P r e (inheritsAttributes x) :=
  puts_of_same fun _ => ⟨rfl, rfl, rfl, rfl, rfl, rfl⟩

theorem puts_noteInheritor (name : String) : Puts P r e (noteInheritor name) := puts_of_same fun _ => ⟨rfl, rfl, rfl, rfl, rfl, rfl⟩

theorem puts_noteRootType (type : String) : Puts P r e (noteRootType type) := puts_of_same fun _ => ⟨rfl, rfl, rfl, rfl, rfl, rfl⟩

theorem puts_manyMark : Puts P r e manyMark := puts_of_same fun _ => ⟨rfl, rfl, rfl, rfl, rfl, rfl⟩

/-- The name of a reference stands where it is noted. -/
theorem gives_elementRef {source : List Char} {x : Element} (hx : x.Permitted P source) :
    Gives P r e (elementRef x) fun ref => ∀ y ∈ ref, P.stands SourceId.template y.1 y.2 := by
  unfold elementRef
  split
  · exact gives_pure (by simp)
  · rename_i v hv
    obtain ⟨a, ha, hav⟩ := Option.bind_eq_some_iff.1 hv
    have hstands := (hx.attr ha).value_stands v hav
    have hanswer : Gives P r e (pure (some (v.content, v.offset))) fun ref => ∀ y ∈ ref, P.stands SourceId.template y.1 y.2 := by
      refine gives_pure ?_
      intro y hy
      obtain rfl := Option.some.inj hy
      exact hstands
    exact .andThen gives_read.puts fun _ => .ite (fun _ => .andThen (puts_access _) fun _ => hanswer) fun _ => hanswer

section

variable (hP : P.Lawful r)

include hP

/-! ## Outlets -/

theorem puts_declaredSlot {source : List Char} {x : Element} (hx : x.Permitted P source) (slots : String) :
    Puts P r e (declaredSlot x slots) := by
  have htag := hx.tag_stands _ List.mem_cons_self
  unfold declaredSlot
  extract_lets stop
  split
  · rename_i p hp
    have hprop := hx.props_permitted p (List.mem_of_find?_eq_some hp)
    cases p with
    | plain a =>
      refine .openAt (hP.allows_start hprop.name_stands) rfl fun b hb => .text ?_
      dsimp only
      split
      · rename_i v hv
        exact .andThen (puts_propertyAccess hP (hprop.value_stands v hv) rfl) fun _ => puts_close hb hprop.allows_stop
      · exact .andThen (puts_text _) fun _ => puts_close hb hprop.allows_stop
    | directive d =>
      refine .openAt hprop.allows_start rfl fun b hb => .text (.text ?_)
      exact .andThen (puts_bindingValue hP hprop) fun _ => .text (puts_close hb hprop.allows_stop)
  · refine .openAt (hP.allows_start htag) rfl fun b hb => .text ?_
    exact .andThen (puts_bounded _ (hP.allows_start htag) (hP.allows_stop htag) rfl) fun _ => .text (puts_close hb (hP.allows_stop htag))

omit hP in
theorem mem_of_mem_withoutName {p : Property} {ps : List Property} (h : p ∈ withoutName ps) : p ∈ ps := by
  induction ps with
  | nil => cases h
  | cons q ps ih =>
    rw [withoutName] at h
    split at h
    · exact List.mem_cons_of_mem _ h
    · rcases List.mem_cons.1 h with rfl | h
      · exact List.mem_cons_self
      · exact List.mem_cons_of_mem _ (ih h)

theorem puts_declaredOutlet {source : List Char} {x : Element} (hx : x.Permitted P source) (slots : String) :
    Puts P r e (declaredOutlet x slots) := by
  have htag := hx.tag_stands _ List.mem_cons_self
  have hprops : ∀ p ∈ withoutName x.props, p.Permitted P := fun p hp => hx.props_permitted p (mem_of_mem_withoutName hp)
  refine .text (.andThen (puts_declaredSlot hP hx slots) fun _ => .text (.openAt (hP.allows_start htag) rfl fun b hb => .text ?_))
  exact .andThen (gives_entries hP x hprops true).puts fun _ => .text (.andThen (puts_close hb (hP.allows_stop htag)) fun _ => puts_text _)

theorem puts_dynamicOutlet {name : Markup.Expression} (h : P.stands SourceId.template name.content name.offset) (variable' : String) :
    Puts P r e (dynamicOutlet name variable') := by
  refine .andThen puts_fresh fun _ => .text (.andThen (puts_expression hP h (by simp [Text.IsPunct])) fun _ => .text ?_)
  exact .andThen (puts_hoist _) fun _ => .andThen (puts_hoist _) fun _ => puts_of_same fun _ => ⟨rfl, rfl, rfl, rfl, rfl, rfl⟩

theorem puts_inferredOutlet {source : List Char} {x : Element} (hx : x.Permitted P source) (variable' : String) :
    Puts P r e (inferredOutlet x variable') := by
  refine .text (.andThen gives_read.puts fun _ => .andThen (gives_entries hP x hx.props_permitted _).puts fun _ => .text ?_)
  split
  · rename_i a ha
    have hprop := hx.props_permitted _ (List.mem_of_find?_eq_some ha)
    split
    · rename_i v hv
      refine puts_noteOutlet _ ?_
      intro o ho
      obtain rfl := Option.some.inj ho
      exact hprop.value_stands v hv
    · exact puts_noteOutlet _ (by simp)
  · rename_i d hd
    have hprop := hx.props_permitted _ (List.mem_of_find?_eq_some hd)
    split
    · rename_i y hy
      exact puts_dynamicOutlet hP (hprop.exp_stands y hy) _
    · exact puts_noteOutlet _ (by simp)
  · exact puts_noteOutlet _ (by simp)

theorem surrounds_outlet {source : List Char} {x : Element} (hx : x.Permitted P source) : Surrounds P r e (outlet x) := by
  refine .andThen puts_fresh fun _ => .andThen gives_read.puts fun setting => ?_
  refine .ite (fun _ => ?_) fun _ => ?_
  · exact .andThen (puts_declaredOutlet hP hx _) fun _ => surrounds_inner
  · exact .andThen (puts_inferredOutlet hP hx _) fun _ => surrounds_inner

/-! ## Contents of slots -/

theorem puts_slotName {d : Directive} (hd : d.Permitted P) : Puts P r e (slotName d) := by
  unfold slotName
  split
  · rename_i a ha
    have harg : d.arg = some a := Option.eq_some_of_filter_eq_some ha
    refine .ite (fun _ => puts_objectKey hP (hd.arg_stands a harg) rfl _ _) fun hdynamic => ?_
    exact puts_objectKey hP (hd.dynamic_stands a harg (Bool.eq_false_iff.2 hdynamic)).1 rfl _ _
  · exact puts_bounded _ hd.allows_start hd.allows_rawName rfl

theorem surrounds_slotContent {d : Option Directive} (hd : ∀ y ∈ d, y.Permitted P) (componentVar : String) :
    Surrounds P r e (slotContent d componentVar) := by
  cases d with
  | none =>
    refine .andThen puts_fresh fun slotVar => .text (.text ?_)
    exact .before (surrounds_inScope surrounds_inner) fun _ _ => puts_pure _
  | some d =>
    have hdirective := hd d rfl
    refine .andThen puts_fresh fun slotVar => .text (.andThen (puts_slotName hP hdirective) fun _ => .text ?_)
    refine .before (surrounds_inScope ?_) fun _ _ => puts_text _
    cases hx : d.exp with
    | none => simpa only [Option.bind_some, hx] using surrounds_inner
    | some y =>
      simp only [Option.bind_some, hx]
      exact .andThen (hP.puts_slotParameters (hdirective.exp_stands y hx) (hdirective.exp_binds y hx) slotVar) fun _ => surrounds_inner

/-! ## Native elements -/

/-- What the object of the properties leaves over stands in the template. -/
theorem gives_propertiesCall {source : List Char} {x : Element} (hx : x.Permitted P source) :
    Gives P r e (propertiesCall x) fun ls => ∀ l ∈ ls, l.Permitted P := by
  have htag := hx.tag_stands _ List.mem_cons_self
  refine .andThen gives_read.puts fun _ => .openAt (hP.allows_start htag) rfl fun b hb => .text ?_
  refine .bind (gives_entries hP x hx.props_permitted _) fun loose hloose => .text ?_
  exact .andThen (puts_close hb (hP.allows_stop htag)) fun _ => .text (gives_pure hloose)

/-- A native element is called on its properties, is checked and noted, and then its children follow. -/
theorem surrounds_nativeCall {x : Element} (hx : x.Permitted P r.source) : Surrounds P r e fun inner : Gen Unit => (do
    text ")("
    let loose ← propertiesCall x
    writeLoose loose
    checkDirectives x.props
    match ← elementRef x with
    | some (name, offset) => noteRef name (Names.ofKey "Elements" ++ "[\"" ++ x.tag ++ "\"]" ++ (← manyMark)) offset
    | none => pure ()
    if ← isRoot x then noteRootType (Names.ofKey "Elements" ++ "[\"" ++ x.tag ++ "\"]")
    if ← inheritsAttributes x then noteInheritor (Names.ofKey "intrinsics" ++ "." ++ x.tag)
    inner) := by
  -- What is noted behind the checks, and then the children.
  have hnoted : Surrounds P r e fun inner : Gen Unit => (do
      if ← isRoot x then noteRootType (Names.ofKey "Elements" ++ "[\"" ++ x.tag ++ "\"]")
      if ← inheritsAttributes x then noteInheritor (Names.ofKey "intrinsics" ++ "." ++ x.tag)
      inner) :=
    .andThen (puts_isRoot x) fun _ => .whenever (puts_noteRootType _) <|
      .andThen (puts_inheritsAttributes x) fun _ => .whenever (puts_noteInheritor _) surrounds_inner
  refine .text (.bind (gives_propertiesCall hP hx) fun loose hloose => .andThen (puts_writeLoose hP hloose) fun _ => ?_)
  refine .andThen (puts_checkDirectives hP hx.props_permitted) fun _ => .bind (gives_elementRef hx) fun ref href => ?_
  cases ref with
  | none => exact hnoted
  | some y => exact .andThen puts_manyMark fun _ => .andThen (puts_noteRef _ (href y rfl)) fun _ => hnoted

theorem surrounds_native {x : Element} (hx : x.Permitted P r.source) : Surrounds P r e (native x) := by
  have htag := hx.tag_stands
  have hcall := surrounds_nativeCall (e := e) hP hx
  refine .bind gives_read fun setting hsetting => ?_
  subst hsetting
  refine .text (.andThen (puts_propertyAccess hP (htag _ List.mem_cons_self) rfl) fun _ => ?_)
  cases hstop : x.endTagOffset setting.source with
  | none => exact hcall
  | some stop =>
    have hend := htag stop (by simp [hstop])
    exact .text (.andThen (puts_propertyAccess hP hend rfl) fun _ => hcall)

theorem surrounds_group {source : List Char} {x : Element} (hx : x.Permitted P source) : Surrounds P r e (group x) := by
  refine .ite (fun _ => ?_) fun _ => surrounds_inner
  exact .andThen gives_read.puts fun _ => .text (.andThen (gives_propertiesCall hP hx).puts fun _ => surrounds_inner)

end

/-! ## Components -/

/-- What a component is called by stands at its places. -/
structure Callee.Permitted (P : Permit) (c : Callee) : Prop where
  code_stands : ∀ o ∈ c.start :: c.stop.toList, P.stands SourceId.template c.code o
  spelled_allowed : c.isExpression = false → ∀ o ∈ c.start :: c.stop.toList, ∀ constant ∈ spellings c.code,
    Code.PartsAllowed P (spelledAs constant c.code) SourceId.template o
  props_permitted : ∀ p ∈ c.props, p.Permitted P

theorem mem_of_splitDynamic {ps ps' : List Property} {x : Markup.Expression} (h : splitDynamic ps = some (x, ps')) :
    (∃ d, Property.directive d ∈ ps ∧ d.exp = some x) ∧ ∀ p ∈ ps', p ∈ ps := by
  induction ps generalizing ps' with
  | nil => cases h
  | cons p ps ih =>
    rw [splitDynamic] at h
    split at h
    · rename_i y hy
      obtain ⟨rfl, rfl⟩ := Prod.mk.inj (Option.some.inj h)
      refine ⟨?_, fun q hq => List.mem_cons_of_mem _ hq⟩
      cases p with
      | plain a => cases hy
      | directive d =>
        unfold dynamicExpression? at hy
        split at hy
        · rename_i heq
          obtain rfl := Property.directive.inj heq
          split at hy
          · exact ⟨d, List.mem_cons_self, hy⟩
          · cases hy
        · cases hy
    · obtain ⟨⟨y, rest⟩, hrest, heq⟩ := Option.map_eq_some_iff.1 h
      obtain ⟨rfl, rfl⟩ := Prod.mk.inj heq
      obtain ⟨⟨d, hd, hdx⟩, hsub⟩ := ih hrest
      refine ⟨⟨d, List.mem_cons_of_mem _ hd, hdx⟩, ?_⟩
      intro q hq
      rcases List.mem_cons.1 hq with rfl | hq
      · exact List.mem_cons_self
      · exact List.mem_cons_of_mem _ (hsub q hq)

theorem Callee.permitted_ofElement {source : List Char} {x : Element} (hx : x.Permitted P source) :
    (Callee.ofElement x source).Permitted P := by
  have hplain : (⟨x.tag, x.tag.toList.contains '.', x.tagOffset, x.endTagOffset source, x.props⟩ : Callee).Permitted P :=
    ⟨hx.tag_stands, fun _ => hx.spelled_allowed, hx.props_permitted⟩
  unfold Callee.ofElement
  dsimp only
  split
  · split
    · rename_i y ps hsplit
      obtain ⟨⟨d, hd, hdy⟩, hsub⟩ := mem_of_splitDynamic hsplit
      refine ⟨?_, by simp, fun p hp => hx.props_permitted p (hsub p hp)⟩
      intro o ho
      obtain rfl := List.mem_singleton.1 ho
      exact (hx.props_permitted _ hd).exp_stands y hdy
    · exact hplain
  · exact hplain

theorem puts_atBothTags {c : Callee} {g : Nat → Gen Unit} (hg : ∀ o ∈ c.start :: c.stop.toList, Puts P r e (g o)) :
    Puts P r e (atBothTags c g) := by
  refine .andThen (hg _ List.mem_cons_self) fun _ => ?_
  split
  · rename_i stop hstop
    exact .text (hg stop (by simp [hstop]))
  · exact puts_pure ()

section

variable (hP : P.Lawful r)

include hP

theorem puts_componentVariable (variable' : String) {c : Callee} (hc : c.Permitted P) : Puts P r e (componentVariable variable' c) := by
  have hcode := hc.code_stands
  refine .ite (fun _ => ?_) fun hplain => ?_
  · refine .text (.andThen (puts_atBothTags fun o ho => ?_) fun _ => puts_text _)
    exact puts_expression hP (hcode o ho) (by simp [Text.IsPunct, Text.isPunct])
  · refine .andThen (puts_of_same fun _ => ⟨rfl, rfl, rfl, rfl, rfl, rfl⟩) fun _ => .andThen gives_read.puts fun _ => ?_
    split
    · rename_i constant hconstant
      refine .text (.andThen (puts_atBothTags fun o ho => ?_) fun _ => puts_text _)
      have hspelled := hc.spelled_allowed (Bool.eq_false_iff.2 hplain) o ho constant (List.mem_of_find?_eq_some hconstant)
      exact puts_camelized hspelled rfl
    · refine .andThen gives_read.puts fun _ => .text (.andThen ?_ fun _ => puts_text _)
      exact puts_quotedKey hP (hcode _ List.mem_cons_self) (isPlain_propertyAccess _)

theorem puts_writeGeneric {g : Generic} (hg : P.stands SourceId.template g.content g.offset) : Puts P r e (writeGeneric g) := by
  refine .openAt (hP.allows_start hg) rfl fun b hb => .text (.andThen (puts_onCode fun _ _ => ?_) fun _ => .text ?_)
  · exact Code.extends_joined (hb.symm ▸ hP.allows_of_stands hg)
  · exact puts_close hb (hP.allows_stop hg)

/-- The call takes up the code of the properties, which was written under the same effect. -/
theorem puts_componentCall {source : List Char} {x : Element} {c : Callee} (hx : x.Permitted P source) (hc : c.Permitted P)
    (v : ComponentVars) {props : Code} (hprops : ∀ y ∈ props.segments, P.Admits e y) : Puts P r e (componentCall x c v props) := by
  have hcode := hc.code_stands _ List.mem_cons_self
  unfold componentCall
  extract_lets call
  have hcall : ∀ u, Puts P r e (call u) := by
    intro _
    refine .text (.openAt (hP.allows_start hcode) rfl fun b hb => .text (.andThen (puts_onCode fun c' hc' => ?_) fun _ => ?_))
    · exact Code.extends_append (hc'.symm ▸ hprops)
    · exact .text (.andThen (puts_close hb (hP.allows_stop hcode)) fun _ => puts_text _)
  refine .andThen gives_read.puts fun _ => .text (.text (.text ?_))
  refine .andThen (puts_bounded _ hx.allows_start hx.allows_stop rfl) fun _ => .text (.bind gives_currentGeneric fun g hg => ?_)
  cases g with
  | some g => exact .andThen (puts_writeGeneric hP (hg g rfl)) hcall
  | none => exact hcall ()

omit hP in
theorem puts_componentInstance {source : List Char} {x : Element} (hx : x.Permitted P source) (c : Callee) :
    Puts P r e (componentInstance x c) := by
  refine .bind (gives_elementRef hx) fun ref href => .andThen gives_read.puts fun _ => .andThen (puts_isRoot x) fun _ => ?_
  refine .ite (fun _ => ?_) fun _ => puts_pure ()
  refine .andThen puts_fresh fun instance' => .andThen puts_contextVar fun _ => .andThen puts_manyMark fun _ => .text ?_
  extract_lets rooted
  have hrooted : ∀ u, Puts P r e (rooted u) := fun _ => .ite (fun _ => puts_noteRootType _) fun _ => puts_pure ()
  cases ref with
  | some y => exact .andThen (puts_hoist instance') fun _ => .andThen (puts_noteRef _ (href y rfl)) hrooted
  | none => exact hrooted ()

omit hP in
theorem surrounds_inComponent (ctx props : String) {c : Gen Unit → Gen Unit} (hc : Surrounds P r e c) :
    Surrounds P r e fun inner => inComponent ctx props (c inner) := by
  refine .andThen (puts_of_same fun _ => ⟨rfl, rfl, rfl, rfl, rfl, rfl⟩) fun _ => .before hc fun _ _ => puts_of_same fun s => ?_
  rw [after_get_bind]
  split <;> exact ⟨rfl, rfl, rfl, rfl, rfl, rfl⟩

/-- A component around its contents, which are its slot and what stands in it. -/
def componentAround (x : Element) (contents : Gen Unit) : Gen Unit := do
  let setting ← read
  let v : ComponentVars := ⟨← fresh, ← fresh, ← fresh⟩
  let ctxName ← fresh
  let propsName ← fresh
  let (ctxUsed, propsUsed) ← inComponent ctxName propsName do
    let c := Callee.ofElement x setting.source
    componentVariable v.component c
    let (props, loose) ← captured (entries x c.props (setting.options.flag .checkUnknownProps))
    componentCall x c v props
    writeLoose loose
    componentListeners x v.component
    checkDirectives x.props
    componentInstance x c
    if ← inheritsAttributes x then noteInheritor (← propsVar)
    contents
  let types := "<typeof " ++ v.component ++ ", typeof " ++ v.node ++ ">;\n"
  if ctxUsed then text ("var " ++ ctxName ++ "!: " ++ Names.ofKey "FunctionalComponentCtx" ++ types)
  if propsUsed then text ("var " ++ propsName ++ "!: " ++ Names.ofKey "FunctionalComponentProps" ++ types)

omit hP in
theorem component_eq (x : Element) (hasChildren : Bool) (inner : Gen Unit) :
    component x hasChildren inner = componentAround x
      (if (x.directive "slot").isSome || hasChildren then contextVar >>= fun v => slotContent (x.directive "slot") v inner
        else pure ()) := rfl

theorem surrounds_componentAround {x : Element} (hx : x.Permitted P r.source) : Surrounds P r e (componentAround x) := by
  refine .bind gives_read fun setting hsetting => ?_
  subst hsetting
  have hc := Callee.permitted_ofElement hx
  refine .andThen puts_fresh fun component => .andThen puts_fresh fun function => .andThen puts_fresh fun node => ?_
  refine .andThen puts_fresh fun ctx => .andThen puts_fresh fun props => .before (surrounds_inComponent ctx props ?_) ?_
  · refine .andThen (puts_componentVariable hP _ hc) fun _ => .captured (gives_entries hP x hc.props_permitted _) ?_
    intro code loose hcode hloose
    refine .andThen (puts_componentCall hP hx hc _ hcode) fun _ => .andThen (puts_writeLoose hP hloose) fun _ => ?_
    refine .andThen (puts_componentListeners hP hx.props_permitted _) fun _ => ?_
    refine .andThen (puts_checkDirectives hP hx.props_permitted) fun _ => .andThen (puts_componentInstance hx _) fun _ => ?_
    refine .andThen (puts_inheritsAttributes x) fun _ => .ite (fun _ => ?_) fun _ => surrounds_inner
    exact .andThen puts_propsVar fun _ => .andThen (puts_noteInheritor _) fun _ => surrounds_inner
  · intro used e'
    exact Puts.whenever (puts_text _) (.ite (fun _ => puts_text _) fun _ => puts_pure ())

theorem surrounds_component {x : Element} (hx : x.Permitted P r.source) : Surrounds P r e (component x true) := by
  have heq : component x true = fun inner => componentAround x (contextVar >>= fun v => slotContent (x.directive "slot") v inner) := by
    funext inner
    rw [component_eq, Bool.or_true, if_pos rfl]
  rw [heq]
  refine .comp (surrounds_componentAround hP hx) (.andThen puts_contextVar fun v => surrounds_slotContent hP ?_ v)
  exact fun d hd => hx.directive hd

/-- A component without children is written without them, whether it has a slot or not. -/
theorem puts_component_leaf {x : Element} (hx : x.Permitted P r.source) : Puts P r e (component x false (pure ())) := by
  rw [component_eq]
  refine (surrounds_componentAround hP hx).puts (.ite (fun _ => ?_) fun _ => puts_pure ())
  exact .andThen puts_contextVar fun v => (surrounds_slotContent hP (fun d hd => hx.directive hd) v).puts (puts_pure ())

end

end Generate

end TypedSfc
