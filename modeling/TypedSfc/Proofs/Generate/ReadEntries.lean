import TypedSfc.Proofs.Generate.Reads

/-!
# Reads of entries

Keys, listeners, properties and directives account for their reads. What is written of its own around their expressions ends in
something other than a dot, or is a dot or an ellipsis alone; expressions that are left over stand between texts without dots, so that
they can be written later.
-/

namespace TypedSfc

namespace Generate

open Markup (Attribute Directive Element Property)

section

variable {r : Setting} {known : List String}

/-! ## Keys -/

theorem accounts_objectKey (code : String) (offset : Nat) (i : Info) (camelize constant : Bool) :
    Accounts r known (objectKey code offset i camelize constant) := by
  unfold objectKey
  cases bracketed? code with
  | some inner =>
    exact .ite (accounts_expressionIn _ _ _ _ (by decide) (by decide)) (accounts_expressionIn _ _ _ _ (by decide) (by decide))
  | none =>
    refine .ite (.ite (accounts_camelized _ _ _) (.then (accounts_openAt _ _) fun b => .text rfl ?_)) ?_
    · exact .then (accounts_camelizedIn _ _ _) fun _ => .text rfl (accounts_close _ _)
    · exact .ite (accounts_mapped _ _ _ _) (accounts_quotedKey _ _ _)

theorem accounts_propertyAccess (code : String) (offset : Nat) (i : Info) : Accounts r known (propertyAccess code offset i) := by
  refine .ite (accounts_expressionIn _ _ _ _ (by decide) (by decide)) (.ite ?_ ?_)
  · exact .then (accounts_textOf (by decide)) fun _ => accounts_mapped _ _ _ _
  · exact .text rfl (.then (accounts_quotedKey _ _ _) fun _ => accounts_text rfl)

/-! ## Names of the generated code -/

theorem notMem_temporary (index : Nat) : '.' ∉ (Names.temporary index).toList := by
  have hdigits : '.' ∉ (toString index).toList := by
    intro hmem
    have hdigit := Nat.isDigit_of_mem_toDigits (by decide) (by decide) (Nat.toList_repr (n := index) ▸ hmem)
    exact absurd hdigit (by decide)
  rw [Names.temporary, Names.ofKey, String.toList_append]
  intro hmem
  rcases List.mem_append.1 hmem with hmem | hmem
  · exact absurd hmem (by decide)
  · exact hdigits hmem

/-- A temporary is not the text before a name. -/
theorem answers_fresh : Answers r known fresh fun name => '.' ∉ name.toList :=
  fun s _ => ⟨List.Subset.refl _, ⟨[], (List.append_nil _).symm, .nil⟩, notMem_temporary s.nextTemporary⟩

theorem accounts_fresh : Accounts r known fresh := answers_fresh.weaken

theorem accounts_hoist (name : String) : Accounts r known (hoist name) := by
  refine .then accounts_get fun s => ?_
  split
  · exact accounts_pure _
  · exact .then accounts_fresh fun _ => .then (accounts_of_same fun _ => ⟨rfl, List.Subset.refl _⟩) fun _ => accounts_pure _

theorem accounts_ofComponent (mark : ComponentScope → ComponentScope) (f : ComponentScope → String) :
    Accounts r known (ofComponent mark f) := by
  refine accounts_of_same fun s => ?_
  rw [ofComponent, after_get_bind]
  split <;> exact ⟨rfl, List.Subset.refl _⟩

theorem accounts_declare (names : List String) : Accounts r known (declare names) := by
  refine accounts_of_same fun s => ?_
  cases hs : s.scopes with
  | nil =>
    rw [after_declare_nil names r hs]
    exact ⟨rfl, List.Subset.refl _⟩
  | cons scope outer =>
    rw [after_declare_cons names r hs]
    exact ⟨rfl, List.Subset.refl _⟩

theorem accounts_inScope {g : Gen Unit} (hg : Accounts r known g) : Accounts r known (inScope g) :=
  .then (accounts_of_same fun _ => ⟨rfl, List.Subset.refl _⟩) fun _ => .then hg fun _ =>
    accounts_of_same fun _ => ⟨rfl, List.Subset.refl _⟩

theorem accounts_writeGuards : Accounts r known writeGuards := by
  refine .then accounts_get fun s => .then (accounts_forIn fun g _ _ => ?_) fun _ => accounts_pure _
  exact .text (endsInDot_append _ rfl) (accounts_pure _)

/-! ## Listeners -/

theorem accounts_listenerKey (name : String) (start : Nat) {front : String} (hfront : endsInDot front = some false) :
    Accounts r known (listenerKey name start front) := by
  refine .then accounts_read fun _ => .then (accounts_openAt _ _) fun b => .whenever (accounts_text rfl) (.text hfront ?_)
  exact .then (accounts_camelizedIn _ _ _) fun _ => .whenever (accounts_text rfl) (accounts_close _ _)

theorem accounts_eventFunction {body : Gen Unit} (hbody : Accounts r known body) : Accounts r known (eventFunction body) :=
  .text rfl (.then hbody fun _ => accounts_text rfl)

theorem accounts_listenerValue (d : Directive) : Accounts r known (listenerValue d) := by
  unfold listenerValue
  cases d.exp with
  | none => exact accounts_text rfl
  | some e =>
    refine .then accounts_read fun _ => .ite (accounts_eventFunction (accounts_inScope ?_)) ?_
    · refine .then (accounts_declare _) fun _ => .then accounts_writeGuards fun _ => ?_
      exact .then (accounts_expression _ _ (by decide) (by decide)) fun _ => accounts_text rfl
    · exact accounts_expression _ _ (by decide) (by decide)

theorem accounts_modelListener (d : Directive) : Accounts r known (modelListener d) := by
  unfold modelListener
  cases d.exp with
  | none => exact accounts_text rfl
  | some e =>
    refine accounts_eventFunction (.then accounts_writeGuards fun _ => ?_)
    exact .then (accounts_expression _ _ (by decide) (by decide)) fun _ => accounts_text rfl

theorem accounts_eventsOf (componentVar : String) : Accounts r known (eventsOf componentVar) :=
  .then accounts_fresh fun _ => .then (accounts_ofComponent _ _) fun _ => .text (endsInDot_append _ rfl) (accounts_pure _)

/-- What stands before the key of a listener ends in a letter. -/
theorem endsInDot_propertyFront (d : Directive) :
    endsInDot (String.ofList (EventName.ofDirective d).propertyFront.toList.dropLast) = some false := by
  have hfronts : (EventName.ofDirective d).propertyFront = "onUpdate:" ∨ (EventName.ofDirective d).propertyFront = "onVnode-" ∨
      (EventName.ofDirective d).propertyFront = "on-" := by
    simp only [EventName.ofDirective]
    split_ifs
    · exact .inl rfl
    · exact .inr (.inl rfl)
    · exact .inr (.inr rfl)
  rw [endsInDot, String.toList_ofList]
  rcases hfronts with h | h | h
  all_goals
    rw [h]
    rfl

theorem accounts_checkListener (eventsVar : String) (d : Directive) : Accounts r known (checkListener eventsVar d) := by
  refine .then accounts_fresh fun _ => .then (accounts_ofComponent _ _) fun _ => .text (endsInDot_append _ rfl) (.ite ?_ ?_)
  · refine .then (accounts_listenerKey _ _ (endsInDot_propertyFront d)) fun _ => .text rfl ?_
    exact .then (accounts_listenerValue d) fun _ => accounts_text rfl
  · exact .text (endsInDot_append _ rfl) (.then (accounts_modelListener d) fun _ => accounts_text rfl)

theorem accounts_checkListeners (componentVar : String) (eventsVar : Option String) (ds : List Directive) :
    Accounts r known (checkListeners componentVar eventsVar ds) := by
  induction ds generalizing eventsVar with
  | nil => exact accounts_pure ()
  | cons d ds ih =>
    have hrest (name : String) : Accounts r known (checkListener name d >>= fun _ => checkListeners componentVar (some name) ds) :=
      .then (accounts_checkListener name d) fun _ => ih (some name)
    cases eventsVar with
    | some name => exact .then (accounts_pure name) hrest
    | none => exact .then (accounts_eventsOf componentVar) hrest

theorem accounts_componentListeners (e : Element) (componentVar : String) : Accounts r known (componentListeners e componentVar) :=
  .then accounts_read fun _ => accounts_checkListeners componentVar none _

/-! ## What is left over -/

/-- Whether the texts around an expression have no dots. -/
def Loose.Dotless (l : Loose) : Prop := '.' ∉ l.front.toList ∧ '.' ∉ l.back.toList

theorem Loose.dotless_ofExpression (x : Markup.Expression) : (Loose.ofExpression x).Dotless :=
  ⟨(by decide : '.' ∉ "(".toList), (by decide : '.' ∉ ")".toList)⟩

/-- A generator that accounts for its reads and leaves over expressions between texts without dots. -/
abbrev LeavesDotless (r : Setting) (known : List String) (g : Gen (List Loose)) : Prop :=
  Answers r known g fun ls => ∀ l ∈ ls, l.Dotless

theorem leavesDotless_nil : LeavesDotless r known (pure []) := answers_pure (by simp)

theorem leavesDotless_expressions (xs : List Markup.Expression) : LeavesDotless r known (pure (xs.map Loose.ofExpression)) := by
  refine answers_pure fun l hl => ?_
  obtain ⟨x, -, rfl⟩ := List.mem_map.1 hl
  exact Loose.dotless_ofExpression x

/-- What two generators leave over, one behind the other. -/
theorem LeavesDotless.append {g g' : Gen (List Loose)} (h : LeavesDotless r known g) (h' : LeavesDotless r known g') :
    LeavesDotless r known (g >>= fun first => g' >>= fun more => pure (first ++ more)) := by
  refine h.bind fun first hfirst => h'.bind fun more hmore => answers_pure fun l hl => ?_
  rcases List.mem_append.1 hl with hl | hl
  · exact hfirst l hl
  · exact hmore l hl

theorem accounts_writeLoose {ls : List Loose} (hls : ∀ l ∈ ls, l.Dotless) : Accounts r known (writeLoose ls) := by
  induction ls with
  | nil => exact accounts_pure ()
  | cons l ls ih =>
    obtain ⟨⟨hfront, hback⟩, hrest⟩ := List.forall_mem_cons.1 hls
    exact .then (accounts_expression _ _ hfront hback) fun _ => .text rfl (ih hrest)

theorem leavesDotless_listenerEntry (isComponent : Bool) (d : Directive) : LeavesDotless r known (listenerEntry isComponent d) := by
  unfold listenerEntry
  cases d.arg with
  | none =>
    cases d.exp with
    | none => exact leavesDotless_nil
    | some x => exact leavesDotless_expressions [x]
  | some a =>
    refine .ite (.ite ?_ ?_) ?_
    · exact .text (endsInDot_append _ rfl) (.text rfl leavesDotless_nil)
    · refine .text rfl (.then (accounts_listenerKey _ _ rfl) fun _ => .text rfl ?_)
      exact .then (accounts_listenerValue d) fun _ => .text rfl (.text rfl leavesDotless_nil)
    · cases d.exp with
      | none => exact leavesDotless_nil
      | some x =>
        have hbody : (⟨x.content, x.offset, "() => \x7b", "\x7d"⟩ : Loose).Dotless :=
          ⟨(by decide : '.' ∉ "() => \x7b".toList), (by decide : '.' ∉ "\x7d".toList)⟩
        have hname : (⟨"[" ++ a.content ++ "]", a.offset - 1, "(", ")"⟩ : Loose).Dotless :=
          ⟨(by decide : '.' ∉ "(".toList), (by decide : '.' ∉ ")".toList)⟩
        exact answers_pure (by simp [hname, hbody])

theorem leavesDotless_listenerEntries (isComponent : Bool) (ps : List Property) :
    LeavesDotless r known (listenerEntries isComponent ps) := by
  induction ps with
  | nil => exact leavesDotless_nil
  | cons p ps ih =>
    cases p with
    | plain a => exact ih
    | directive d =>
      unfold listenerEntries
      split
      · exact LeavesDotless.append (leavesDotless_listenerEntry isComponent d) ih
      · exact LeavesDotless.append leavesDotless_nil ih

/-! ## Entries of properties -/

/-- A binding without a value notes the name that it reads. -/
theorem accounts_shorthand (arg : Markup.Expression) : Accounts r known (do
    access (Text.camelize arg.content)
    text ownerText
    camelized arg.content arg.offset Info.checked) := by
  intro s _
  refine ⟨subset_addNew _ _, ⟨.text ownerText ::
    ((s.code.continueFrom.camelized arg.content SourceId.template arg.offset Info.checked).segments ++ []), ?_, ?_⟩, trivial⟩
  · have howner : (s.code.text ownerText).segments = s.code.segments ++ [.text ownerText] := rfl
    rw [List.append_nil, List.append_cons, ← howner]
    exact Code.segments_camelized (s.code.text ownerText) _ _ _ _
  · exact .shorthand arg rfl (mem_addNew_self _ _) .nil

theorem accounts_bindingValue (d : Directive) : Accounts r known (bindingValue d) := by
  unfold bindingValue
  cases d.exp with
  | some e => exact accounts_expression _ _ (by decide) (by decide)
  | none =>
    cases hshorthand : shorthand? d with
    | none => exact accounts_text rfl
    | some b =>
      obtain ⟨a, name⟩ := b
      have hname : name = Text.camelize a.content := by
        obtain ⟨a', -, ha'⟩ := Option.bind_eq_some_iff.1 hshorthand
        simp only [Option.ite_none_right_eq_some, Option.some.injEq, Prod.mk.injEq] at ha'
        rw [← ha'.2.2, ha'.2.1]
      subst hname
      refine .then accounts_get fun _ => .ite (accounts_camelized _ _ _) (.then accounts_read fun _ => .ite ?_ (accounts_shorthand a))
      exact .then (accounts_camelized _ _ _) fun _ => accounts_text rfl

theorem accounts_spreading {name : String} {g : Gen Unit} (hg : Accounts r known g) : Accounts r known (spreading name g) := by
  unfold spreading
  exact .whenever (accounts_text rfl) (.then hg fun _ => .whenever (accounts_text rfl) (accounts_text rfl))

theorem accounts_modifiers (d : Directive) {name : String} (hname : ¬EndsInOwner name) : Accounts r known (modifiers d name) := by
  unfold modifiers
  split
  · refine .then (accounts_bounded _ _ _ hname) fun _ => .text rfl (.then (accounts_forIn fun m _ _ => ?_) fun _ => accounts_text rfl)
    exact .then (accounts_objectKey _ _ _ _ _) fun _ => .text rfl (accounts_pure _)
  · exact accounts_pure ()

theorem not_endsInOwner_modifiersName (d : Directive) (name : String) : ¬EndsInOwner (modifiersName d name) := by
  refine not_endsInOwner_of_ends ?_
  unfold modifiersName
  split
  · split
    · exact endsInDot_append _ rfl
    · exact endsInDot_append _ rfl
  · rfl

/-- What a model without an argument is bound to is no text before a name, unless the options call a property so. -/
theorem modelProperty_given {o : Options} {e : Element} {name : String} (h : modelProperty o e = some name) :
    ¬EndsInOwner name ∨ name ∈ o.modelNames.entries.map Prod.fst := by
  unfold modelProperty at h
  extract_lets named byAttributes byTag at h
  have hmem : ∀ m, byAttributes.or byTag = some m → m ∈ o.modelNames.entries := by
    intro m hm
    rcases Option.or_eq_some_iff.1 hm with hm | ⟨-, hm⟩
    · exact List.mem_of_find?_eq_some hm
    · exact List.mem_of_find?_eq_some hm
  split at h
  · rename_i m hm
    simp only [named, Option.ite_none_left_eq_some, Option.some.injEq] at h
    exact .inr (List.mem_map.2 ⟨m, hmem m hm, h.2⟩)
  · exact .inl (Option.some.inj h ▸ by decide)

/-- The name of a property that is bound without an argument. -/
theorem boundName_given {o : Options} {e : Element} {d : Directive} {name : String} (h : boundName o e d = some name)
    (harg : d.arg = none) : ¬EndsInOwner name ∨ name ∈ o.modelNames.entries.map Prod.fst := by
  rw [boundName, harg] at h
  exact modelProperty_given h

theorem accounts_boundEntry (e : Element) (d : Directive) {name : String} (i : Info) (hname : boundName r.options e d = some name) :
    Accounts r known (boundEntry e d name i) := by
  refine .then accounts_read fun _ => .then (accounts_spreading (.then (accounts_openAt _ _) fun b => ?_)) fun _ => ?_
  · extract_lets value
    have hvalue : ∀ u, Accounts r known (value u) := fun _ =>
      .text rfl (.then (accounts_openAt _ _) fun v => .then (accounts_bindingValue d) fun _ =>
        .then (accounts_close _ _) fun _ => accounts_close _ _)
    cases harg : d.arg with
    | some a => exact .then (accounts_objectKey _ _ _ _ _) hvalue
    | none =>
      rcases boundName_given hname harg with hne | hgiven
      · exact .then (accounts_bounded _ _ _ hne) hvalue
      · exact .then (accounts_boundedGiven _ _ _ (List.mem_append_right _ hgiven)) hvalue
  · exact .ite (.then (accounts_modifiers d (not_endsInOwner_modifiersName d name)) fun _ => accounts_text rfl) (accounts_pure ())

theorem leavesDotless_bindingEntry (e : Element) (d : Directive) (i : Info) : LeavesDotless r known (bindingEntry e d i) := by
  refine .read ?_
  extract_lets o
  cases hname : boundName r.options e d with
  | none => exact leavesDotless_expressions _
  | some name =>
    exact .ite (leavesDotless_expressions _) (.then (accounts_boundEntry e d i hname) fun _ => leavesDotless_nil)

theorem accounts_attributeEntry (e : Element) (a : Attribute) (i : Info) : Accounts r known (attributeEntry e a i) := by
  refine .then accounts_read fun setting => .ite (accounts_pure ()) (accounts_spreading (.then (accounts_openAt _ _) fun b => ?_))
  refine .then (accounts_objectKey _ _ _ _ _) fun _ => .text rfl (.ite ?_ ?_)
  · exact .text rfl (accounts_close _ _)
  · cases a.value with
    | none => exact .text rfl (accounts_close _ _)
    | some v =>
      have hquote : endsInDot (quoteOf setting.source v) = some false := by
        unfold quoteOf
        split <;> rfl
      exact .text hquote (.then (accounts_onCode fun c => c.addsOwn_literal _ _ _ _) fun _ => .text hquote (accounts_close _ _))

theorem leavesDotless_spreadEntry (d : Directive) : LeavesDotless r known (spreadEntry d) := by
  unfold spreadEntry
  cases d.exp with
  | none => exact leavesDotless_nil
  | some x =>
    refine .ite (leavesDotless_expressions [x]) (.then (accounts_openAt _ _) fun b => .then (accounts_textOf (by decide)) fun _ => ?_)
    exact .then (accounts_bindingValue d) fun _ => .then (accounts_close _ _) fun _ => .text rfl leavesDotless_nil

theorem leavesDotless_entry (e : Element) (i : Info) (p : Property) : LeavesDotless r known (entry e i p) := by
  cases p with
  | plain a => exact .then (accounts_attributeEntry e a i) fun _ => leavesDotless_nil
  | directive d => exact .ite (leavesDotless_bindingEntry e d i) (.ite (leavesDotless_spreadEntry d) leavesDotless_nil)

theorem leavesDotless_valueEntries (e : Element) (i : Info) (ps : List Property) : LeavesDotless r known (valueEntries e i ps) := by
  induction ps with
  | nil => exact leavesDotless_nil
  | cons p ps ih => exact LeavesDotless.append (leavesDotless_entry e i p) ih

theorem leavesDotless_entries (e : Element) (ps : List Property) (strict : Bool) : LeavesDotless r known (entries e ps strict) :=
  LeavesDotless.append (leavesDotless_listenerEntries _ ps) (leavesDotless_valueEntries e _ ps)

/-! ## Directives -/

theorem accounts_directiveName (d : Directive) : Accounts r known (directiveName d) := by
  refine .then accounts_read fun _ => .then (accounts_openAt _ _) fun b => .then (accounts_textOf (by decide)) fun _ => ?_
  exact .then (accounts_camelized _ _ _) fun _ => .then (accounts_close _ _) fun _ => .ite (accounts_access _) (accounts_pure ())

theorem accounts_directiveArgument (d : Directive) : Accounts r known (directiveArgument d) := by
  unfold directiveArgument
  cases d.arg with
  | none => exact accounts_pure ()
  | some a =>
    refine .then (accounts_bounded _ _ _ (by decide)) fun _ => .text rfl (.ite ?_ ?_)
    · exact .then (accounts_quotedKey _ _ _) fun _ => accounts_text rfl
    · exact .then (accounts_expression _ _ (by decide) (by decide)) fun _ => accounts_text rfl

theorem accounts_directiveValue (d : Directive) : Accounts r known (directiveValue d) := by
  unfold directiveValue
  cases d.exp with
  | none => exact accounts_pure ()
  | some x => exact .then (accounts_bounded _ _ _ (by decide)) fun _ => .text rfl (accounts_bindingValue d)

theorem accounts_checkDirective (d : Directive) : Accounts r known (checkDirective d) := by
  refine .then accounts_read fun _ => .then (accounts_openAt _ _) fun b => .text rfl (.then (accounts_directiveName d) fun _ => ?_)
  refine .text (endsInDot_append _ rfl) (.then (accounts_directiveArgument d) fun _ => ?_)
  refine .then (accounts_modifiers d (by decide)) fun _ => .then (accounts_directiveValue d) fun _ => .text rfl ?_
  exact .then (accounts_close _ _) fun _ => accounts_text rfl

theorem accounts_checkDirectives (ps : List Property) : Accounts r known (checkDirectives ps) := by
  induction ps with
  | nil => exact accounts_pure ()
  | cons p ps ih =>
    cases p with
    | plain a => exact ih
    | directive d =>
      unfold checkDirectives
      exact .whenever (accounts_checkDirective d) ih

end

end Generate

end TypedSfc
