import TypedSfc.Generate.Binding
import TypedSfc.Proofs.Generate.Balanced

/-!
# Entries leave stacks as they were

Listeners, properties and directives neither open a frame nor state a guard. A listener of several statements has a scope of its own, and
reads the guards that are stated again in it.
-/

namespace TypedSfc

namespace Generate

open Markup (Attribute Directive Element Property)

/-! ## Listeners -/

theorem balances_listenerKey (name : String) (start : Nat) (front : String) : Balances (listenerKey name start front) := by
  refine .bind balances_read fun _ => .bind (balances_openAt _ _) fun b => .whenever (balances_text _) (.text ?_)
  exact .bind (balances_camelizedIn _ _ _) fun _ => .whenever (balances_text _) (balances_close _ _)

theorem balances_eventFunction {body : Gen Unit} (hbody : Balances body) : Balances (eventFunction body) :=
  .text (.bind hbody fun _ => balances_text _)

theorem balances_listenerValue (d : Directive) : Balances (listenerValue d) := by
  unfold listenerValue
  split
  · exact balances_text _
  · refine .bind balances_read fun _ => .ite (balances_eventFunction (balances_inScope ?_)) (balances_expression _ _ _ _)
    refine .bind (balances_declare _) fun _ => .bind balances_writeGuards fun _ => ?_
    exact .bind (balances_expression _ _ _ _) fun _ => balances_text _

theorem balances_modelListener (d : Directive) : Balances (modelListener d) := by
  unfold modelListener
  split
  · exact balances_text _
  · refine balances_eventFunction (.bind balances_writeGuards fun _ => ?_)
    exact .bind (balances_expression _ _ _ _) fun _ => balances_text _

theorem balances_eventsOf (componentVar : String) : Balances (eventsOf componentVar) :=
  .bind balances_fresh fun _ => .bind balances_contextVar fun _ => .text (balances_pure _)

theorem balances_checkListener (eventsVar : String) (d : Directive) : Balances (checkListener eventsVar d) := by
  refine .bind balances_fresh fun _ => .bind balances_propsVar fun _ => .text (.ite ?_ ?_)
  · exact .bind (balances_listenerKey _ _ _) fun _ => .text (.bind (balances_listenerValue d) fun _ => balances_text _)
  · exact .text (.bind (balances_modelListener d) fun _ => balances_text _)

theorem balances_checkListeners (componentVar : String) (eventsVar : Option String) (ds : List Directive) :
    Balances (checkListeners componentVar eventsVar ds) := by
  induction ds generalizing eventsVar with
  | nil => exact balances_pure ()
  | cons d ds ih =>
    have hrest := fun name => (balances_checkListener name d).bind fun _ => ih (some name)
    cases eventsVar with
    | some name => exact .bind (balances_pure name) hrest
    | none => exact .bind (balances_eventsOf componentVar) hrest

theorem balances_componentListeners (e : Element) (componentVar : String) : Balances (componentListeners e componentVar) :=
  .bind balances_read fun _ => balances_checkListeners componentVar none _

/-! ## Entries of listeners -/

theorem balances_writeLoose (ls : List Loose) : Balances (writeLoose ls) := by
  induction ls with
  | nil => exact balances_pure ()
  | cons l ls ih => exact .bind (balances_expression _ _ _ _) fun _ => .text ih

theorem balances_listenerEntry (isComponent : Bool) (d : Directive) : Balances (listenerEntry isComponent d) := by
  unfold listenerEntry
  split
  · refine .ite (.ite (.text (.text (balances_pure _))) (.text (.bind (balances_listenerKey _ _ _) fun _ => ?_))) ?_
    · exact .text (.bind (balances_listenerValue d) fun _ => .text (.text (balances_pure _)))
    · split <;> exact balances_pure _
  · exact balances_pure _
  · exact balances_pure _

theorem balances_listenerEntries (isComponent : Bool) (ps : List Property) : Balances (listenerEntries isComponent ps) := by
  induction ps with
  | nil => exact balances_pure _
  | cons p ps ih =>
    cases p with
    | plain a => exact ih
    | directive d =>
      refine .ite ?_ ?_
      · exact .bind (balances_listenerEntry isComponent d) fun _ => .bind ih fun _ => balances_pure _
      · exact .bind (balances_pure _) fun _ => .bind ih fun _ => balances_pure _

/-! ## Entries of properties -/

theorem balances_bindingValue (d : Directive) : Balances (bindingValue d) := by
  unfold bindingValue
  split
  · exact balances_expression _ _ _ _
  · split
    · exact balances_text _
    · refine .bind balances_get fun _ => .ite (balances_camelized _ _ _) (.bind balances_read fun _ => .ite ?_ ?_)
      · exact .bind (balances_camelized _ _ _) fun _ => balances_text _
      · exact .bind (balances_access _) fun _ => .text (balances_camelized _ _ _)

theorem balances_spreading (name : String) {g : Gen Unit} (hg : Balances g) : Balances (spreading name g) :=
  .whenever (balances_text _) (.bind hg fun _ => .whenever (balances_text _) (balances_text _))

theorem balances_modifiers (d : Directive) (name : String) : Balances (modifiers d name) := by
  unfold modifiers
  split
  · refine .bind (balances_bounded _ _ _ _) fun _ => .text (.bind (balances_forIn fun _ _ _ => ?_) fun _ => balances_text _)
    exact .bind (balances_objectKey _ _ _ _ _) fun _ => .text (balances_pure _)
  · exact balances_pure _

theorem balances_boundEntry (e : Element) (d : Directive) (name : String) (i : Info) : Balances (boundEntry e d name i) := by
  refine .bind balances_read fun setting => .bind (balances_spreading name (.bind (balances_openAt _ _) fun b => ?_)) fun _ => ?_
  · extract_lets value
    have hvalue : ∀ u, Balances (value u) := fun _ =>
      .text (.bind (balances_openAt _ _) fun v => .bind (balances_bindingValue d) fun _ => .bind (balances_close _ _) fun _ =>
        balances_close _ _)
    split
    · exact .bind (balances_objectKey _ _ _ _ _) hvalue
    · exact .bind (balances_bounded _ _ _ _) hvalue
  · exact .ite (.bind (balances_modifiers d _) fun _ => balances_text _) (balances_pure _)

theorem balances_bindingEntry (e : Element) (d : Directive) (i : Info) : Balances (bindingEntry e d i) := by
  refine .bind balances_read fun setting => ?_
  extract_lets o
  split
  · exact .ite (balances_pure _) (.bind (balances_boundEntry e d _ i) fun _ => balances_pure _)
  · exact balances_pure _

theorem balances_attributeEntry (e : Element) (a : Attribute) (i : Info) : Balances (attributeEntry e a i) := by
  refine .bind balances_read fun setting => .ite (balances_pure _) (balances_spreading a.name (.bind (balances_openAt _ _) fun b => ?_))
  refine .bind (balances_objectKey _ _ _ _ _) fun _ => .text (.ite (.text (balances_close b _)) ?_)
  split
  · refine .text (.bind (balances_onCode fun c => ?_) fun _ => .text (balances_close b _))
    exact c.effect_literal _ _ _ _
  · exact .text (balances_close b _)

theorem balances_spreadEntry (d : Directive) : Balances (spreadEntry d) := by
  unfold spreadEntry
  split
  · exact balances_pure _
  · refine .ite (balances_pure _) (.bind (balances_openAt _ _) fun b => .text (.bind (balances_bindingValue d) fun _ => ?_))
    exact .bind (balances_close _ _) fun _ => .text (balances_pure _)

theorem balances_entry (e : Element) (i : Info) (p : Property) : Balances (entry e i p) := by
  cases p with
  | plain a => exact .bind (balances_attributeEntry e a i) fun _ => balances_pure _
  | directive d => exact .ite (balances_bindingEntry e d i) (.ite (balances_spreadEntry d) (balances_pure _))

theorem balances_valueEntries (e : Element) (i : Info) (ps : List Property) : Balances (valueEntries e i ps) := by
  induction ps with
  | nil => exact balances_pure _
  | cons p ps ih => exact .bind (balances_entry e i p) fun _ => .bind ih fun _ => balances_pure _

theorem balances_entries (e : Element) (ps : List Property) (strict : Bool) : Balances (entries e ps strict) :=
  .bind (balances_listenerEntries _ ps) fun _ => .bind (balances_valueEntries e _ ps) fun _ => balances_pure _

/-! ## Directives -/

theorem balances_directiveName (d : Directive) : Balances (directiveName d) := by
  refine .bind balances_read fun setting => .bind (balances_openAt _ _) fun b => .text (.bind (balances_camelized _ _ _) fun _ => ?_)
  exact .bind (balances_close _ _) fun _ => .ite (balances_access _) (balances_pure _)

theorem balances_directiveArgument (d : Directive) : Balances (directiveArgument d) := by
  unfold directiveArgument
  split
  · exact balances_pure _
  · refine .bind (balances_bounded _ _ _ _) fun _ => .text (.ite ?_ ?_)
    · exact .bind (balances_quotedKey _ _ _) fun _ => balances_text _
    · exact .bind (balances_expression _ _ _ _) fun _ => balances_text _

theorem balances_directiveValue (d : Directive) : Balances (directiveValue d) := by
  unfold directiveValue
  split
  · exact balances_pure _
  · exact .bind (balances_bounded _ _ _ _) fun _ => .text (balances_bindingValue d)

theorem balances_checkDirective (d : Directive) : Balances (checkDirective d) := by
  refine .bind balances_read fun setting => .bind (balances_openAt _ _) fun b => .text (.bind (balances_directiveName d) fun _ => .text ?_)
  refine .bind (balances_directiveArgument d) fun _ => .bind (balances_modifiers d _) fun _ => .bind (balances_directiveValue d) fun _ => ?_
  exact .text (.bind (balances_close _ _) fun _ => balances_text _)

theorem balances_checkDirectives (ps : List Property) : Balances (checkDirectives ps) := by
  induction ps with
  | nil => exact balances_pure ()
  | cons p ps ih =>
    cases p with
    | plain a => exact ih
    | directive d => exact .whenever (balances_checkDirective d) ih

end Generate

end TypedSfc
