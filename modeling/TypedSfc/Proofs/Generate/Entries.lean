import TypedSfc.Generate.Binding
import TypedSfc.Generate.Expression
import TypedSfc.Proofs.Generate.Closes

/-!
# Expressions and entries leave groups as they are

What is noted beside the code does not touch it, and the frame of a node only changes the effect in force. An expression is written
without any group, which is why its code can be taken apart and put together again. Listeners, properties and directives open a group
for each place of the template that a checker may speak of as a whole. Each group is closed where it was opened, whatever stands in
between.
-/

namespace TypedSfc

namespace Generate

open Markup (Attribute Directive Element Property)

variable {n : Nat}

/-! ## Names and components -/

theorem keeps_declare (names : List String) : Keeps n (declare names) := by
  refine keeps_modify fun s => ?_
  cases s.scopes <;> rfl

theorem keeps_inScope {g : Gen Unit} (hg : Keeps n g) : Keeps n (inScope g) :=
  .bind (keeps_modify fun _ => rfl) fun _ => .bind hg fun _ => keeps_modify fun _ => rfl

theorem keeps_access (name : String) : Keeps n (access name) := keeps_modify fun _ => rfl

theorem keeps_fresh : Keeps n fresh := keeps_of_same fun _ _ => rfl

theorem keeps_hoist (name : String) : Keeps n (hoist name) := by
  unfold hoist
  refine .bind keeps_get fun s => ?_
  split
  · exact closes_pure _
  · exact .bind keeps_fresh fun _ => .bind (keeps_modify fun _ => rfl) fun _ => closes_pure _

theorem keeps_noteRef (name type : String) (offset : Nat) : Keeps n (noteRef name type offset) := keeps_modify fun _ => rfl

theorem keeps_noteType (name : String) : Keeps n (noteType name) := keeps_modify fun _ => rfl

theorem keeps_writeGuards : Keeps n writeGuards :=
  .bind keeps_get fun _ => .bind (keeps_forIn fun _ _ _ => .text (closes_pure _)) fun _ => closes_pure _

theorem keeps_ofComponent (mark : ComponentScope → ComponentScope) (f : ComponentScope → String) : Keeps n (ofComponent mark f) := by
  refine keeps_of_same fun r s => ?_
  rw [ofComponent, after_get_bind]
  split <;> rfl

theorem keeps_contextVar : Keeps n contextVar := keeps_ofComponent _ _

theorem keeps_propsVar : Keeps n propsVar := keeps_ofComponent _ _

/-- Leaving a component does not touch the code. -/
theorem keeps_inComponent (ctx props : String) {g : Gen Unit} (hg : Keeps n g) : Keeps n (inComponent ctx props g) := by
  refine .bind (keeps_modify fun _ => rfl) fun _ => .bind hg fun _ => keeps_of_same fun r s => ?_
  rw [after_get_bind]
  split <;> rfl

theorem keeps_currentGeneric : Keeps n currentGeneric := keeps_of_same fun _ _ => rfl

/-! ## Frames -/

/-- Opening and closing frames changes the effect in force, and no segment. -/
theorem adds_withFrames (s : State) (fs : List Frame) : Code.Adds (4 + n) [] [] s.code (s.withFrames fs).code :=
  .same rfl (Nat.le_refl _)

theorem keeps_enter : Keeps n enter := by
  intro r s
  rw [enter, after_get_bind]
  split
  rename_i next f hframe
  dsimp only
  split
  · exact .refl s.code
  · exact adds_withFrames { s with pending := [], nextExpectation := next } _

/-- The marker of an expectation is a group of its own. -/
theorem keeps_leave : Keeps n leave := by
  intro r s
  have hframes := adds_withFrames (n := n) { s with pending := [] } s.frames.tail
  rw [leave, after_get_bind]
  split
  · refine .andThen hframes ?_
    exact Closes.bind (keeps_bounded _ _ _ _) (fun _ => keeps_text _) r _
  · exact .andThen hframes (closes_pure _ r _)

theorem keeps_asNode {g : Gen Unit} (hg : Keeps n g) : Keeps n (asNode g) :=
  .bind keeps_enter fun _ => .ite (fun _ => .bind hg fun _ => keeps_leave) fun _ => closes_pure _

theorem keeps_keepComment (span : Span) (data : String) : Keeps n (keepComment span data) := keeps_modify fun _ => rfl

/-! ## Expressions -/

/-- A placement of a known source, outside any group. -/
structure Placement.Ok (n : Nat) (p : Placement) : Prop where
  source : p.source < 4 + n
  role : p.info.role = none

theorem plain_piece {p : Placement} (hp : p.Ok n) (t : List Char) (pos : Nat) (atEnd : Bool) : Plain n (piece p t pos atEnd) := by
  unfold piece
  refine .bind (plain_checkCut _ _ _) fun _ => .bind (plain_checkCut _ _ _) fun _ => .bind (plain_text _) fun _ => ?_
  refine .ite (.bind (plain_mapped _ hp.source _ hp.role) fun _ => plain_text _) (plain_text _)

theorem plain_cutPiece {p : Placement} (hp : p.Ok n) (whole : List Char) (start stop : Nat) (atEnd : Bool) :
    Plain n (cutPiece p whole start stop atEnd) := .bind (plain_checkCut _ _ _) fun _ => plain_piece hp _ _ _

theorem plain_useName {p : Placement} (hp : p.Ok n) (whole : List Char) (prev : Nat) (r : Script.Reference) :
    Plain n (useName p whole prev r) := by
  unfold useName
  extract_lets stop name last rest
  have hlast : ∀ u, Plain n (last u) := fun _ => plain_piece hp _ _ _
  have hrest : ∀ u, Plain n (rest u) := by
    intro u
    refine .bind plain_read fun setting => .ite ?_ ?_
    · exact .bind (plain_piece hp _ _ _) fun _ => plain_text _
    · refine .bind (plain_piece hp _ _ _) fun _ => .ite ?_ ?_
      · exact .bind (plain_text _) hlast
      · exact .bind (plain_access _) fun _ => .bind (plain_text _) hlast
  refine .ite ?_ ?_
  · exact .bind (plain_cutPiece hp _ _ _ _) fun _ => .bind (plain_text _) hrest
  · exact .bind (plain_cutPiece hp _ _ _ _) hrest

theorem plain_useNames {p : Placement} (hp : p.Ok n) (whole : List Char) (prev : Nat) (rs : List Script.Reference) :
    Plain n (useNames p whole prev rs) := by
  induction rs generalizing prev with
  | nil => exact .ite (plain_cutPiece hp _ _ _ _) (plain_pure ())
  | cons r rs ih => exact .bind plain_get fun _ => .ite (ih prev) (.bind (plain_useName hp _ _ _) fun _ => ih _)

theorem plain_expressionIn {source : SourceId} (hs : source < 4 + n) (code : String) (start : Nat) {i : Info} (hi : i.role = none)
    (front back : String) : Plain n (expressionIn source code start i front back) :=
  .bind plain_read fun _ => plain_useNames (p := ⟨source, start, i, front.utf8ByteSize, code.utf8ByteSize⟩) ⟨hs, hi⟩ _ _ _

theorem plain_expression (code : String) (start : Nat) (front back : String) : Plain n (expression code start front back) :=
  plain_expressionIn (template_lt n) code start rfl front back

theorem keeps_expression (code : String) (start : Nat) (front back : String) : Keeps n (expression code start front back) :=
  (plain_expression code start front back).keeps

/-! ## Keys -/

theorem keeps_objectKey (code : String) (offset : Nat) {i : Info} (hi : i.role = none) (camelize constant : Bool) :
    Keeps n (objectKey code offset i camelize constant) := by
  unfold objectKey
  split
  · exact .ite (fun _ => (plain_expressionIn (template_lt n) _ _ hi _ _).keeps)
      fun _ => (plain_expressionIn (template_lt n) _ _ hi _ _).keeps
  · refine .ite (fun _ => .ite (fun _ => keeps_camelized _ _ hi) fun _ => ?_) fun _ => ?_
    · -- The quotes and the parts of the name are one group.
      exact .openAt fun b => .text (.camelizedIn List.mem_cons_self (.text (closes_close b _)))
    · exact .ite (fun _ => keeps_mapped _ (template_lt n) _ hi) fun _ => keeps_quotedKey _ _ _

theorem keeps_propertyAccess (code : String) (offset : Nat) {i : Info} (hi : i.role = none) : Keeps n (propertyAccess code offset i) := by
  refine .ite (fun _ => (plain_expressionIn (template_lt n) _ _ hi _ _).keeps) fun _ => .ite (fun _ => ?_) fun _ => ?_
  · exact .text (keeps_mapped _ (template_lt n) _ hi)
  · exact .text (.bind (keeps_quotedKey _ _ _) fun _ => keeps_text _)

theorem role_propertyOf (strict : Bool) : (Info.propertyOf strict).role = none := by cases strict <;> rfl

/-! ## Listeners -/

theorem keeps_listenerKey (name : String) (start : Nat) (front : String) : Keeps n (listenerKey name start front) := by
  refine .bind keeps_read fun _ => .openAt fun b => .whenever (keeps_text _) ?_
  exact .text (.camelizedIn List.mem_cons_self (.whenever (keeps_text _) (closes_close b _)))

theorem keeps_eventFunction {body : Gen Unit} (hbody : Keeps n body) : Keeps n (eventFunction body) :=
  .text (.bind hbody fun _ => keeps_text _)

theorem keeps_listenerValue (d : Directive) : Keeps n (listenerValue d) := by
  unfold listenerValue
  split
  · exact keeps_text _
  · refine .bind keeps_read fun _ => .ite (fun _ => ?_) fun _ => keeps_expression _ _ _ _
    refine keeps_eventFunction (keeps_inScope ?_)
    exact .bind (keeps_declare _) fun _ => .bind keeps_writeGuards fun _ => .bind (keeps_expression _ _ _ _) fun _ => keeps_text _

theorem keeps_modelListener (d : Directive) : Keeps n (modelListener d) := by
  unfold modelListener
  split
  · exact keeps_text _
  · exact keeps_eventFunction (.bind keeps_writeGuards fun _ => .bind (keeps_expression _ _ _ _) fun _ => keeps_text _)

theorem keeps_eventsOf (componentVar : String) : Keeps n (eventsOf componentVar) :=
  .bind keeps_fresh fun _ => .bind keeps_contextVar fun _ => .text (closes_pure _)

theorem keeps_checkListener (eventsVar : String) (d : Directive) : Keeps n (checkListener eventsVar d) := by
  refine .bind keeps_fresh fun _ => .bind keeps_propsVar fun _ => .text (.ite (fun _ => ?_) fun _ => ?_)
  · exact .bind (keeps_listenerKey _ _ _) fun _ => .text (.bind (keeps_listenerValue d) fun _ => keeps_text _)
  · exact .text (.bind (keeps_modelListener d) fun _ => keeps_text _)

theorem keeps_checkListeners (componentVar : String) (eventsVar : Option String) (ds : List Directive) :
    Keeps n (checkListeners componentVar eventsVar ds) := by
  induction ds generalizing eventsVar with
  | nil => exact closes_pure ()
  | cons d ds ih =>
    have hrest := fun name => Closes.bind (keeps_checkListener (n := n) name d) fun _ => ih (some name)
    cases eventsVar with
    | some name => exact .bind (closes_pure name) hrest
    | none => exact .bind (keeps_eventsOf componentVar) hrest

theorem keeps_componentListeners (e : Element) (componentVar : String) : Keeps n (componentListeners e componentVar) :=
  .bind keeps_read fun _ => keeps_checkListeners componentVar none _

/-! ## Entries of listeners -/

theorem keeps_writeLoose (ls : List Loose) : Keeps n (writeLoose ls) := by
  induction ls with
  | nil => exact closes_pure ()
  | cons l ls ih => exact .bind (keeps_expression _ _ _ _) fun _ => .text ih

theorem keeps_listenerEntry (isComponent : Bool) (d : Directive) : Keeps n (listenerEntry isComponent d) := by
  unfold listenerEntry
  split
  · refine .ite (fun _ => ?_) fun _ => ?_
    · refine .ite (fun _ => .text (.text (closes_pure _))) fun _ => .text (.bind (keeps_listenerKey _ _ _) fun _ => ?_)
      exact .text (.bind (keeps_listenerValue d) fun _ => .text (.text (closes_pure _)))
    · split
      · exact closes_pure _
      · exact closes_pure _
  · exact closes_pure _
  · exact closes_pure _

theorem keeps_listenerEntries (isComponent : Bool) (ps : List Property) : Keeps n (listenerEntries isComponent ps) := by
  induction ps with
  | nil => exact closes_pure _
  | cons p ps ih =>
    cases p with
    | plain a => exact ih
    | directive d =>
      refine .ite (fun _ => ?_) fun _ => ?_
      · exact .bind (keeps_listenerEntry isComponent d) fun _ => .bind ih fun _ => closes_pure _
      · exact .bind (closes_pure _) fun _ => .bind ih fun _ => closes_pure _

/-! ## Entries of properties -/

theorem keeps_bindingValue (d : Directive) : Keeps n (bindingValue d) := by
  unfold bindingValue
  split
  · exact keeps_expression _ _ _ _
  · split
    · exact keeps_text _
    · refine .bind keeps_get fun _ => .ite (fun _ => keeps_camelized _ _ rfl) fun _ => ?_
      refine .bind keeps_read fun _ => .ite (fun _ => ?_) fun _ => ?_
      · exact .bind (keeps_camelized _ _ rfl) fun _ => keeps_text _
      · exact .bind (keeps_access _) fun _ => .text (keeps_camelized _ _ rfl)

theorem keeps_spreading (name : String) {g : Gen Unit} (hg : Keeps n g) : Keeps n (spreading name g) :=
  .whenever (keeps_text _) (.bind hg fun _ => .whenever (keeps_text _) (keeps_text _))

theorem keeps_modifiers (d : Directive) (name : String) : Keeps n (modifiers d name) := by
  unfold modifiers
  split
  · refine .bind (keeps_bounded _ _ _ _) fun _ => .text (.bind (keeps_forIn fun _ _ _ => ?_) fun _ => keeps_text _)
    exact .bind (keeps_objectKey _ _ rfl _ _) fun _ => .text (closes_pure _)
  · exact closes_pure _

theorem keeps_boundEntry (e : Element) (d : Directive) (name : String) {i : Info} (hi : i.role = none) :
    Keeps n (boundEntry e d name i) := by
  refine .bind keeps_read fun setting => .bind (keeps_spreading name (.openAt fun b => ?_)) fun _ => .ite (fun _ => ?_) fun _ => ?_
  · -- The value is a group within that of the entry.
    extract_lets value
    have hvalue : ∀ u, Closes n [b] [] (value u) := fun _ =>
      .text (.openAt fun v => .bind (keeps_bindingValue d) fun _ => .close (closes_close b _))
    split
    · exact .bind (keeps_objectKey _ _ hi _ _) hvalue
    · exact .bind (keeps_bounded _ _ _ _) hvalue
  · exact .bind (keeps_modifiers d _) fun _ => keeps_text _
  · exact closes_pure _

theorem keeps_bindingEntry (e : Element) (d : Directive) {i : Info} (hi : i.role = none) : Keeps n (bindingEntry e d i) := by
  refine .bind keeps_read fun setting => ?_
  extract_lets o
  split
  · exact .ite (fun _ => closes_pure _) fun _ => .bind (keeps_boundEntry e d _ hi) fun _ => closes_pure _
  · exact closes_pure _

theorem keeps_attributeEntry (e : Element) (a : Attribute) {i : Info} (hi : i.role = none) : Keeps n (attributeEntry e a i) := by
  refine .bind keeps_read fun setting => .ite (fun _ => closes_pure _) fun _ => keeps_spreading a.name (.openAt fun b => ?_)
  refine .bind (keeps_objectKey _ _ hi _ _) fun _ => .text ?_
  refine .ite (fun _ => .text (closes_close b _)) fun _ => ?_
  split
  · refine .text (.bind (keeps_onCode fun c => ?_) fun _ => .text (closes_close b _))
    exact Code.adds_literal c _ (template_lt n) _ rfl
  · exact .text (closes_close b _)

theorem keeps_spreadEntry (d : Directive) : Keeps n (spreadEntry d) := by
  unfold spreadEntry
  split
  · exact closes_pure _
  · refine .ite (fun _ => closes_pure _) fun _ => .openAt fun b => .text ?_
    exact .bind (keeps_bindingValue d) fun _ => .close (.text (closes_pure _))

theorem keeps_entry (e : Element) {i : Info} (hi : i.role = none) (p : Property) : Keeps n (entry e i p) := by
  cases p with
  | plain a => exact .bind (keeps_attributeEntry e a hi) fun _ => closes_pure _
  | directive d =>
    exact .ite (fun _ => keeps_bindingEntry e d hi) fun _ => .ite (fun _ => keeps_spreadEntry d) fun _ => closes_pure _

theorem keeps_valueEntries (e : Element) {i : Info} (hi : i.role = none) (ps : List Property) : Keeps n (valueEntries e i ps) := by
  induction ps with
  | nil => exact closes_pure _
  | cons p ps ih => exact .bind (keeps_entry e hi p) fun _ => .bind ih fun _ => closes_pure _

theorem keeps_entries (e : Element) (ps : List Property) (strict : Bool) : Keeps n (entries e ps strict) :=
  .bind (keeps_listenerEntries _ ps) fun _ => .bind (keeps_valueEntries e (role_propertyOf strict) ps) fun _ => closes_pure _

/-! ## Directives -/

theorem keeps_directiveName (d : Directive) : Keeps n (directiveName d) := by
  refine .bind keeps_read fun setting => .openAt fun b => .text (.bind (keeps_camelized _ _ ?_) fun _ => .close ?_)
  · split <;> rfl
  · exact .ite (fun _ => keeps_access _) fun _ => closes_pure _

theorem keeps_directiveArgument (d : Directive) : Keeps n (directiveArgument d) := by
  unfold directiveArgument
  split
  · exact closes_pure _
  · refine .bind (keeps_bounded _ _ _ _) fun _ => .text (.ite (fun _ => ?_) fun _ => ?_)
    · exact .bind (keeps_quotedKey _ _ _) fun _ => keeps_text _
    · exact .bind (keeps_expression _ _ _ _) fun _ => keeps_text _

theorem keeps_directiveValue (d : Directive) : Keeps n (directiveValue d) := by
  unfold directiveValue
  split
  · exact closes_pure _
  · exact .bind (keeps_bounded _ _ _ _) fun _ => .text (keeps_bindingValue d)

theorem keeps_checkDirective (d : Directive) : Keeps n (checkDirective d) := by
  refine .bind keeps_read fun setting => .openAt fun b => .text (.bind (keeps_directiveName d) fun _ => .text ?_)
  refine .bind (keeps_directiveArgument d) fun _ => .bind (keeps_modifiers d _) fun _ => .bind (keeps_directiveValue d) fun _ => ?_
  exact .text (.close (keeps_text _))

theorem keeps_checkDirectives (ps : List Property) : Keeps n (checkDirectives ps) := by
  induction ps with
  | nil => exact closes_pure ()
  | cons p ps ih =>
    cases p with
    | plain a => exact ih
    | directive d => exact .whenever (keeps_checkDirective d) ih

end Generate

end TypedSfc
