import TypedSfc.Proofs.Generate.Resolving

/-!
# Uses of entries

Listeners, properties and directives write their expressions in the scopes of their element. Only a listener of several statements puts
a scope of its own around them, in which `$event` is declared.
-/

namespace TypedSfc

namespace Code

/-- The parts of a name are the same in any buffer. -/
theorem exists_segments_groupParts (source : SourceId) (offset token : Nat) (ps : List (Nat × String)) :
    ∃ ss, ∀ c : Code, (c.groupParts source offset token ps).segments = c.segments ++ ss := by
  induction ps with
  | nil => exact ⟨[], fun c => (List.append_nil _).symm⟩
  | cons p ps ih =>
    cases ps with
    | nil => exact ⟨_, fun c => rfl⟩
    | cons q ps =>
      obtain ⟨ss, hss⟩ := ih
      exact ⟨_ :: ss, fun c => (hss _).trans (List.append_assoc _ [_] ss)⟩

/-- A name in camelCase is what it is in an empty buffer. -/
theorem segments_camelized (c : Code) (name : String) (source : SourceId) (offset : Nat) (i : Info) :
    (c.camelized name source offset i).segments = c.segments ++ (c.continueFrom.camelized name source offset i).segments := by
  unfold camelized
  split
  · exact (List.append_nil _).symm
  · rfl
  · obtain ⟨ss, hss⟩ := exists_segments_groupParts source offset c.nextToken ‹_›
    dsimp only
    rw [hss, show c.continueFrom.nextToken = c.nextToken from rfl, hss]
    exact List.append_assoc _ [_] ss

end Code

namespace Generate

open Markup (Attribute Directive Element Property)

section

variable {r : Setting} {w : Site} {cs : Option (List (Span × String))}

/-! ## Keys -/

theorem resolves_objectKey (code : String) (offset : Nat) (i : Info) (camelize constant : Bool) :
    Resolves r ⟨w, cs⟩ (objectKey code offset i camelize constant) (keyUses w code offset i constant) := by
  unfold objectKey keyUses
  cases bracketed? code with
  | some inner => exact .ite (fun _ => resolves_expressionIn _ _ _ _ _ _) fun _ => resolves_expressionIn _ _ _ _ _ _
  | none =>
    have hquoted : Quiet r (openAt offset i >>= fun b => text "\"" >>= fun _ => onCode (·.camelizedIn b code offset) >>= fun _ =>
        text "\"" >>= fun _ => close b (offset + code.utf8ByteSize)) :=
      .bind (quiet_openAt _ _) fun b => .bind (quiet_text _) fun _ => .bind (quiet_camelizedIn _ _ _) fun _ =>
        .bind (quiet_text _) fun _ => quiet_close _ _
    exact (Quiet.ite (.ite (quiet_camelized _ _ _) hquoted) (.ite (quiet_mapped _ _ _ _) (quiet_quotedKey _ _ _))).resolves

theorem resolves_propertyAccess (code : String) (offset : Nat) (i : Info) :
    Resolves r ⟨w, cs⟩ (propertyAccess code offset i) (accessUses w code offset i) := by
  refine .ite (fun _ => resolves_expressionIn _ _ _ _ _ _) fun _ => (Quiet.ite ?_ ?_).resolves
  · exact .bind (quiet_text _) fun _ => quiet_mapped _ _ _ _
  · exact .bind (quiet_text _) fun _ => .bind (quiet_quotedKey _ _ _) fun _ => quiet_text _

/-! ## Listeners -/

theorem quiet_listenerKey (name : String) (start : Nat) (front : String) : Quiet r (listenerKey name start front) := by
  refine .bind quiet_read fun _ => .bind (quiet_openAt _ _) fun b => .whenever (quiet_text _) ?_
  exact .bind (quiet_text _) fun _ => .bind (quiet_camelizedIn _ _ _) fun _ => .whenever (quiet_text _) (quiet_close _ _)

theorem resolves_eventFunction {body : Gen Unit} {us : List Use} (hbody : Resolves r ⟨w, cs⟩ body us) :
    Resolves r ⟨w, cs⟩ (eventFunction body) us := .text (.before hbody fun _ => quiet_text _)

/-- The statements of a listener stand in a scope with `$event`; a function or its name does not. -/
theorem resolves_listenerValue (d : Directive) : Resolves r ⟨w, cs⟩ (listenerValue d) (listenerUses r w d) := by
  unfold listenerValue listenerUses
  cases d.exp with
  | none => exact (quiet_text _).resolves
  | some e =>
    have hbody : Resolves r ⟨w.within ["$event"], cs⟩
        (writeGuards >>= fun _ => expression e.content e.offset "" "" >>= fun _ => text ";\n")
        [(w.within ["$event"]).expression e.content e.offset "" ""] :=
      .quiet quiet_writeGuards fun _ => .before (resolves_expression _ _ _ _) fun _ => quiet_text _
    exact .read (.ite (fun _ => resolves_eventFunction (.inScope (.declared hbody))) fun _ => resolves_expression _ _ _ _)

theorem resolves_modelListener (d : Directive) : Resolves r ⟨w, cs⟩ (modelListener d) (modelUses w d) := by
  unfold modelListener modelUses
  cases d.exp with
  | none => exact (quiet_text _).resolves
  | some e =>
    refine resolves_eventFunction (.quiet quiet_writeGuards fun _ => ?_)
    exact .before (resolves_expression _ _ _ _) fun _ => quiet_text _

theorem quiet_eventsOf (componentVar : String) : Quiet r (eventsOf componentVar) :=
  .bind quiet_fresh fun _ => .bind (quiet_ofComponent _ _) fun _ => .bind (quiet_text _) fun _ => quiet_pure _

theorem resolves_checkListener (eventsVar : String) (d : Directive) :
    Resolves r ⟨w, cs⟩ (checkListener eventsVar d) (checkedUses r w d) := by
  refine .quiet quiet_fresh fun _ => .quiet (quiet_ofComponent _ _) fun _ => .text (.ite (fun _ => ?_) fun _ => ?_)
  · exact .quiet (quiet_listenerKey _ _ _) fun _ => .text (.before (resolves_listenerValue d) fun _ => quiet_text _)
  · exact .text (.before (resolves_modelListener d) fun _ => quiet_text _)

theorem resolves_checkListeners (componentVar : String) (eventsVar : Option String) (ds : List Directive) :
    Resolves r ⟨w, cs⟩ (checkListeners componentVar eventsVar ds) (ds.flatMap (checkedUses r w)) := by
  induction ds generalizing eventsVar with
  | nil => exact leads_pure trivial
  | cons d ds ih =>
    have hrest := fun name => (resolves_checkListener (r := r) (w := w) name d).bind fun _ _ => ih (some name)
    rw [List.flatMap_cons]
    cases eventsVar with
    | some name => exact .quiet (quiet_pure name) hrest
    | none => exact .quiet (quiet_eventsOf componentVar) hrest

theorem resolves_componentListeners (e : Element) (componentVar : String) :
    Resolves r ⟨w, cs⟩ (componentListeners e componentVar) (componentListenerUses r w e) :=
  .read (resolves_checkListeners componentVar none _)

theorem resolves_writeLoose (ls : List Loose) : Resolves r ⟨w, cs⟩ (writeLoose ls) (looseUses w ls) := by
  induction ls with
  | nil => exact leads_pure trivial
  | cons l ls ih => exact .bind (resolves_expression _ _ _ _) fun _ _ => .text ih

/-! ### Entries of listeners -/

/-- A generator makes some uses at a point, and leaves over the expressions that are said. -/
abbrev Leaves (r : Setting) (a : Point) (g : Gen (List Loose)) (us : List Use) (ls : List Loose) : Prop :=
  Leads r a [] g us a fun x => x = ls

/-- What two generators leave over, one behind the other. -/
theorem Leaves.append {a : Point} {g g' : Gen (List Loose)} {us vs : List Use} {ls ms : List Loose} (h : Leaves r a g us ls)
    (h' : Leaves r a g' vs ms) : Leaves r a (g >>= fun first => g' >>= fun more => pure (first ++ more)) (us ++ vs) (ls ++ ms) := by
  refine h.bind fun first hfirst => h'.answer fun more hmore => ?_
  rw [hfirst, hmore]

theorem leaves_listenerEntry (isComponent : Bool) (d : Directive) :
    Leaves r ⟨w, cs⟩ (listenerEntry isComponent d) (listenerEntryUses r w isComponent d) (listenerLoose d) := by
  unfold listenerEntry listenerEntryUses listenerLoose
  cases d.arg with
  | none =>
    cases d.exp with
    | none => exact leads_pure rfl
    | some e => exact leads_pure rfl
  | some a =>
    dsimp only
    cases a.isStatic with
    | false =>
      cases d.exp with
      | none => exact leads_pure rfl
      | some e => exact leads_pure rfl
    | true =>
      cases isComponent with
      | true => exact .text (.text (leads_pure rfl))
      | false =>
        refine .text (.quiet (quiet_listenerKey _ _ _) fun _ => .text ?_)
        exact (resolves_listenerValue d).ending fun _ _ => .text (.text (leads_pure rfl))

theorem leaves_listenerEntries (isComponent : Bool) (ps : List Property) :
    Leaves r ⟨w, cs⟩ (listenerEntries isComponent ps)
      (ps.flatMap (ofDirective fun d => if d.name == "on" then listenerEntryUses r w isComponent d else []))
      (ps.flatMap (ofDirective fun d => if d.name == "on" then listenerLoose d else [])) := by
  induction ps with
  | nil => exact leads_pure rfl
  | cons p ps ih =>
    rw [List.flatMap_cons, List.flatMap_cons]
    cases p with
    | plain a => exact ih
    | directive d =>
      by_cases hon : (d.name == "on") = true
      · simp only [listenerEntries, ofDirective, if_pos hon]
        exact (leaves_listenerEntry isComponent d).append ih
      · simp only [listenerEntries, ofDirective, if_neg hon]
        exact Leaves.append (leads_pure rfl) ih

/-! ## Entries of properties -/

/-- A binding without a value reads the name of its argument in the scopes of the site. -/
theorem resolves_shorthand (arg : Markup.Expression) (name : String) :
    Resolves r ⟨w, cs⟩ (do
      let own := camelized arg.content arg.offset Info.checked
      if (← get).isDeclared name then own
      else if (← read).setupRefs.contains name then
        own
        text ".value"
      else
        access name
        text (Names.ofKey "ctx" ++ ".")
        own) [⟨.shorthand arg name, w.scopes⟩] := by
  rintro s ⟨hscopes, hdepth, hwaiting⟩
  have hdeclared : s.isDeclared name = w.scopes.any (·.contains name) := by rw [← hscopes]; rfl
  have hown := fun c : Code => c.segments_camelized arg.content SourceId.template arg.offset Info.checked
  dsimp only
  rw [after_get_bind, hdeclared]
  by_cases hin : w.scopes.any (·.contains name) = true
  · rw [if_pos hin]
    refine ⟨⟨hscopes, hdepth, hwaiting⟩, ⟨?_, rfl, _, hown s.code, .single ⟨s.code.continueFrom, rfl, ?_⟩⟩, trivial⟩
    · simp only [Use.reads, hin, Bool.true_or, if_true, List.flatMap_singleton]
      rfl
    · simp only [hin, if_true]
  · rw [if_neg hin, after_read_bind]
    by_cases href : r.setupRefs.contains name = true
    · rw [if_pos href]
      refine ⟨⟨hscopes, hdepth, hwaiting⟩, ⟨?_, rfl, _, ?_, .single ⟨s.code.continueFrom, rfl, rfl⟩⟩, trivial⟩
      · simp only [Use.reads, href, Bool.or_true, if_true, List.flatMap_singleton]
        rfl
      · dsimp only
        rw [if_neg hin, if_pos href, ← List.append_assoc, ← hown]
        rfl
    · rw [if_neg href]
      have hmakes : Use.Makes r ⟨.shorthand arg name, w.scopes⟩ _ := ⟨(s.code.text (Names.ofKey "ctx" ++ ".")).continueFrom, rfl, rfl⟩
      refine ⟨⟨hscopes, hdepth, hwaiting⟩, ⟨?_, rfl, _, ?_, .single hmakes⟩, trivial⟩
      · simp only [Use.reads, hin, href, List.flatMap_singleton]
        rfl
      · dsimp only
        rw [if_neg hin, if_neg href]
        have hctx : (s.code.text (Names.ofKey "ctx" ++ ".")).segments = s.code.segments ++ [.text (Names.ofKey "ctx" ++ ".")] := rfl
        refine (hown (s.code.text (Names.ofKey "ctx" ++ "."))).trans ?_
        rw [hctx, List.append_assoc, List.singleton_append]

theorem resolves_bindingValue (d : Directive) : Resolves r ⟨w, cs⟩ (bindingValue d) (valueUses w d) := by
  unfold bindingValue valueUses
  cases d.exp with
  | some e => exact resolves_expression _ _ _ _
  | none =>
    cases shorthand? d with
    | none => exact (quiet_text _).resolves
    | some b => exact resolves_shorthand b.1 b.2

theorem Leads.spreading {a : Point} {name : String} {g : Gen Unit} {us : List Use} (hg : Resolves r a g us) :
    Resolves r a (Generate.spreading name g) us := by
  unfold Generate.spreading
  exact .quietly (quiet_text _) (.before hg fun _ => .whenever (quiet_text _) (quiet_text _))

theorem resolves_modifiers (d : Directive) (name : String) : Resolves r ⟨w, cs⟩ (modifiers d name) (modifierUses w d) := by
  unfold modifiers modifierUses
  cases hmodifiers : d.modifiers with
  | nil => exact leads_pure trivial
  | cons first more =>
    rw [List.getLast?_cons]
    refine .quiet (quiet_bounded _ _ _ _) fun _ => .text (.before (resolves_forIn fun m _ _ => ?_) fun _ => quiet_text _)
    exact (resolves_objectKey _ _ _ _ _).ending fun _ _ => .text (leads_pure rfl)

theorem resolves_boundEntry (e : Element) (d : Directive) (name : String) (i : Info) :
    Resolves r ⟨w, cs⟩ (boundEntry e d name i) (boundUses w e d name i) := by
  unfold boundEntry boundUses
  rw [← List.append_assoc]
  refine .read (.bind (.spreading (.quiet (quiet_openAt _ _) fun b => ?_)) fun _ _ => .ite (fun _ => ?_) fun _ => leads_pure trivial)
  · extract_lets value
    have hvalue : ∀ u, Resolves r ⟨w, cs⟩ (value u) (valueUses w d) := fun _ =>
      .text (.quiet (quiet_openAt _ _) fun v => .before (resolves_bindingValue d) fun _ => .bind (quiet_close _ _) fun _ => quiet_close _ _)
    cases d.arg with
    | some a => exact (resolves_objectKey _ _ _ _ _).bind fun _ _ => hvalue ()
    | none => exact .quiet (quiet_bounded _ _ _ _) fun _ => hvalue ()
  · exact .before (resolves_modifiers d _) fun _ => quiet_text _

theorem leaves_bindingEntry (e : Element) (d : Directive) (i : Info) :
    Leaves r ⟨w, cs⟩ (bindingEntry e d i)
      (match entryName? r.options e d with
        | some name => boundUses w e d name i
        | none => [])
      (if (entryName? r.options e d).isSome then [] else d.exp.toList.map Loose.ofExpression) := by
  refine .read ?_
  extract_lets o
  unfold entryName?
  cases boundName r.options e d with
  | none => exact leads_pure rfl
  | some name =>
    by_cases hdata : Text.matchesOne r.options.dataAttributes name = true
    · simp only [o, Option.filter, hdata, Bool.not_true, if_true]
      exact leads_pure rfl
    · simp only [o, Option.filter, hdata, Bool.not_false, if_true]
      exact (resolves_boundEntry e d name i).ending fun _ _ => leads_pure rfl

theorem resolves_attributeEntry (e : Element) (a : Attribute) (i : Info) :
    Resolves r ⟨w, cs⟩ (attributeEntry e a i)
      (if Text.matchesOne r.options.dataAttributes a.name then [] else keyUses w a.name a.span.start i false) := by
  refine .read (.ite (fun _ => leads_pure trivial) fun _ => .spreading (.quiet (quiet_openAt _ _) fun b => ?_))
  refine .before (resolves_objectKey _ _ _ _ _) fun _ => .bind (quiet_text _) fun _ => .ite ?_ ?_
  · exact .bind (quiet_text _) fun _ => quiet_close _ _
  · split
    · refine .bind (quiet_text _) fun _ => .bind (quiet_onCode fun c => c.prefix_literal _ _ _ _) fun _ => ?_
      exact .bind (quiet_text _) fun _ => quiet_close _ _
    · exact .bind (quiet_text _) fun _ => quiet_close _ _

theorem leaves_spreadEntry (d : Directive) : Leaves r ⟨w, cs⟩ (spreadEntry d)
    (if d.exp.any fun x => x.content == "$attrs" then [] else d.exp.toList.map fun x => w.expression x.content x.offset "(" ")")
    ((d.exp.toList.filter fun x => x.content == "$attrs").map Loose.ofExpression) := by
  unfold spreadEntry
  cases hexp : d.exp with
  | none => exact leads_pure rfl
  | some x =>
    by_cases hattrs : (x.content == "$attrs") = true
    · simp only [Option.any_some, Option.toList_some, List.filter_cons, hattrs, if_true]
      exact leads_pure rfl
    · have hvalue : Resolves r ⟨w, cs⟩ (bindingValue d) (valueUses w d) := resolves_bindingValue d
      rw [valueUses, hexp] at hvalue
      simp only [Option.any_some, Option.toList_some, List.filter_cons, hattrs]
      refine .quiet (quiet_openAt _ _) fun b => .text (hvalue.ending fun _ _ => ?_)
      exact .quiet (quiet_close _ _) fun _ => .text (leads_pure rfl)

theorem leaves_entry (e : Element) (i : Info) (p : Property) :
    Leaves r ⟨w, cs⟩ (entry e i p) (entryUses r w e i p) (entryLoose r e p) := by
  cases p with
  | plain a => exact (resolves_attributeEntry e a i).ending fun _ _ => leads_pure rfl
  | directive d =>
    unfold entry entryUses entryLoose
    dsimp only
    by_cases hbinds : (d.name == "model" || (d.name == "bind" && d.arg.isSome)) = true
    · simp only [hbinds, if_true]
      exact leaves_bindingEntry e d i
    · simp only [hbinds]
      by_cases hspreads : (d.name == "bind") = true
      · simp only [hspreads, if_true]
        exact leaves_spreadEntry d
      · simp only [hspreads]
        exact leads_pure rfl

theorem leaves_valueEntries (e : Element) (i : Info) (ps : List Property) :
    Leaves r ⟨w, cs⟩ (valueEntries e i ps) (ps.flatMap (entryUses r w e i)) (ps.flatMap (entryLoose r e)) := by
  induction ps with
  | nil => exact leads_pure rfl
  | cons p ps ih =>
    rw [List.flatMap_cons, List.flatMap_cons]
    exact Leaves.append (leaves_entry e i p) ih

theorem leaves_entries (e : Element) (ps : List Property) (strict : Bool) :
    Leaves r ⟨w, cs⟩ (entries e ps strict) (entriesUses r w e ps strict) (entriesLoose r e ps) :=
  Leaves.append (leaves_listenerEntries _ ps) (leaves_valueEntries e _ ps)

/-! ## Directives -/

/-- A directive that is not known to the framework is a member of the component. -/
theorem resolves_directiveName (d : Directive) : Resolves r ⟨w, cs⟩ (directiveName d)
    (if builtinDirectives.contains d.name then [] else [w.member (Text.camelize ("v-" ++ d.name))]) := by
  refine .read (.quiet (quiet_openAt _ _) fun b => .text (.quiet (quiet_camelized _ _ _) fun _ => .quiet (quiet_close _ _) fun _ => ?_))
  cases builtinDirectives.contains d.name with
  | true => exact leads_pure trivial
  | false => exact resolves_access _

theorem resolves_directiveArgument (d : Directive) : Resolves r ⟨w, cs⟩ (directiveArgument d)
    (match d.arg with
      | some a => if a.isStatic then [] else [w.expression a.content a.offset "(" ")"]
      | none => []) := by
  unfold directiveArgument
  cases d.arg with
  | none => exact leads_pure trivial
  | some a =>
    refine .quiet (quiet_bounded _ _ _ _) fun _ => .text (.ite (fun _ => ?_) fun _ => ?_)
    · exact (Quiet.bind (quiet_quotedKey _ _ _) fun _ => quiet_text _).resolves
    · exact .before (resolves_expression _ _ _ _) fun _ => quiet_text _

theorem resolves_directiveValue (d : Directive) :
    Resolves r ⟨w, cs⟩ (directiveValue d) (if d.exp.isSome then valueUses w d else []) := by
  unfold directiveValue
  cases hexp : d.exp with
  | none => exact leads_pure trivial
  | some x => exact .quiet (quiet_bounded _ _ _ _) fun _ => .text (resolves_bindingValue d)

theorem resolves_checkDirective (d : Directive) : Resolves r ⟨w, cs⟩ (checkDirective d) (directiveUses w d) := by
  refine .read (.quiet (quiet_openAt _ _) fun b => .text (.bind (resolves_directiveName d) fun _ _ => .text ?_))
  refine .bind (resolves_directiveArgument d) fun _ _ => .bind (resolves_modifiers d _) fun _ _ => ?_
  exact .before (resolves_directiveValue d) fun _ => .bind (quiet_text _) fun _ => .bind (quiet_close _ _) fun _ => quiet_text _

theorem resolves_checkDirectives (ps : List Property) : Resolves r ⟨w, cs⟩ (checkDirectives ps) (directivesUses w ps) := by
  induction ps with
  | nil => exact leads_pure trivial
  | cons p ps ih =>
    cases p with
    | plain a => exact ih
    | directive d =>
      show Resolves r ⟨w, cs⟩ (checkDirectives (.directive d :: ps))
        ((if ["slot", "on", "model", "bind"].contains d.name then [] else directiveUses w d) ++ directivesUses w ps)
      unfold checkDirectives
      cases ["slot", "on", "model", "bind"].contains d.name with
      | true => exact ih
      | false => exact (resolves_checkDirective d).bind fun _ _ => ih

end

end Generate

end TypedSfc
