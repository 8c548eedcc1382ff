import TypedSfc.Proofs.Generate.Handlers

/-!
# Elements write their handlers

From a point of a template, under some guards, an element writes all its handlers. Where a handler is written the guards are still those
at the start of the element, since nothing that is written before it has changed the stacks; and what is written behind it only adds to
the code.
-/

namespace TypedSfc

namespace Generate

open Markup (Directive Element Property)

/-- From a point and under some guards, a generator adds code in which some handlers are written. -/
def Handles {α : Type} (r : Setting) (a : Point) (guards : List String) (g : Gen α) (hs : List Handler) : Prop :=
  ∀ s : State, s.At a → s.guards = guards →
    ∃ ss, (g.after r s).2.code.segments = s.code.segments ++ ss ∧ ∀ h ∈ hs, h.Shows r ss

/-- From a point and under some guards, a generator leaves others. -/
def Turns {α : Type} (r : Setting) (a : Point) (guards : List String) (g : Gen α) (guards' : List String) : Prop :=
  ∀ s : State, s.At a → s.guards = guards → (g.after r s).2.guards = guards'

/-- A generator adds code behind what is there. -/
def Prolongs {α : Type} (r : Setting) (g : Gen α) : Prop := ∀ s : State, s.code.segments <+: (g.after r s).2.code.segments

section

variable {α β : Type} {r : Setting} {a b : Point} {guards : List String} {hs ks : List Handler} {held us : List Use} {P : Code → Prop}
  {Q : α → Prop}

/-! ## Sequences -/

theorem Balances.turns {g : Gen α} (hg : Balances g) : Turns r a guards g guards := fun s _ hguards =>
  (hg r s).guards_eq.trans hguards

theorem Closes.prolongs {g : Gen α} (hg : Keeps 0 g) : Prolongs r g := by
  intro s
  obtain ⟨ss, hss, -⟩ := hg r s (.nil _ _)
  exact ⟨ss, hss.symm⟩

theorem Quiet.prolongs {g : Gen α} (hg : Quiet r g) : Prolongs r g := hg.2

/-- A generator that adds code need not write a handler. -/
theorem handles_nil {g : Gen α} (hg : Prolongs r g) : Handles r a guards g [] := by
  intro s _ _
  obtain ⟨ss, hss⟩ := hg s
  exact ⟨ss, hss.symm, fun h hh => absurd hh List.not_mem_nil⟩

/-- A generator that leads somewhere need not write a handler. -/
theorem Leads.handles {g : Gen α} (hleads : Leads r a held g us b Q) : Handles r a guards g [] := by
  intro s hat _
  obtain ⟨-, ⟨-, -, ss, hss, -⟩, -⟩ := hleads s hat
  exact ⟨ss, hss, fun h hh => absurd hh List.not_mem_nil⟩

/-- Some handlers, and then those of the rest, which begins under other guards. -/
theorem Handles.across {guards' : List String} {g : Gen α} {k : α → Gen β} (hg : Handles r a guards g hs)
    (hleads : Leads r a held g us b Q) (hturns : Turns r a guards g guards') (hk : ∀ x, Q x → Handles r b guards' (k x) ks) :
    Handles r a guards (g >>= k) (hs ++ ks) := by
  intro s hat hguards
  obtain ⟨as, has, hshown⟩ := hg s hat hguards
  obtain ⟨hat', -, hanswer⟩ := hleads s hat
  obtain ⟨ss, hss, hshown'⟩ := hk (g.after r s).1 hanswer (g.after r s).2 hat' (hturns s hat hguards)
  refine ⟨as ++ ss, ?_, ?_⟩
  · rw [← List.append_assoc, ← has]
    exact hss
  · intro h hh
    rcases List.mem_append.1 hh with hh | hh
    · exact (hshown h hh).append ss
    · exact (hshown' h hh).behind as

/-- Some handlers, and then those of the rest, which begins under the same guards. -/
theorem Handles.bind {g : Gen α} {k : α → Gen β} (hg : Handles r a guards g hs) (hleads : Leads r a held g us b Q)
    (hbalances : Balances g) (hk : ∀ x, Handles r b guards (k x) ks) : Handles r a guards (g >>= k) (hs ++ ks) :=
  hg.across hleads hbalances.turns fun x _ => hk x

/-- A generator without handlers, and then the rest. -/
theorem Handles.past {g : Gen α} {k : α → Gen β} (hleads : Leads r a held g us b Q) (hbalances : Balances g)
    (hk : ∀ x, Q x → Handles r b guards (k x) hs) : Handles r a guards (g >>= k) hs :=
  hleads.handles.across hleads hbalances.turns hk

/-- A generator that reads nothing, and then the rest. -/
theorem Handles.quiet {g : Gen α} {k : α → Gen β} (hg : Quiet r g) (hbalances : Balances g) (hk : ∀ x, Handles r a guards (k x) hs) :
    Handles r a guards (g >>= k) hs := .past hg.resolves hbalances fun x _ => hk x

theorem Handles.text {t : String} {k : Unit → Gen β} (hk : Handles r a guards (k ()) hs) :
    Handles r a guards (Generate.text t >>= k) hs := .quiet (quiet_text t) (balances_text t) fun _ => hk

/-- Some handlers, and then a generator that adds code. -/
theorem Handles.before {g : Gen α} {k : α → Gen β} (hg : Handles r a guards g hs) (hk : ∀ x, Prolongs r (k x)) :
    Handles r a guards (g >>= k) hs := by
  intro s hat hguards
  obtain ⟨as, has, hshown⟩ := hg s hat hguards
  obtain ⟨ss, hss⟩ := hk (g.after r s).1 (g.after r s).2
  refine ⟨as ++ ss, ?_, fun h hh => (hshown h hh).append ss⟩
  rw [← List.append_assoc, ← has]
  exact hss.symm

theorem Handles.ite {p : Prop} [Decidable p] {g g' : Gen α} (h : p → Handles r a guards g hs) (h' : ¬p → Handles r a guards g' hs) :
    Handles r a guards (if p then g else g') hs := by
  split
  · exact h ‹_›
  · exact h' ‹_›

/-- A generator that reads nothing and only runs on a condition, and the rest behind it. -/
theorem Handles.whenever {p : Prop} [Decidable p] {g : Gen Unit} {k : Unit → Gen β} (hg : Quiet r g) (hbalances : Balances g)
    (hk : Handles r a guards (k ()) hs) : Handles r a guards (if p then g >>= k else k ()) hs :=
  .ite (fun _ => .quiet hg hbalances fun _ => hk) fun _ => hk

theorem Handles.read {k : Setting → Gen β} (hk : Handles r a guards (k r) hs) : Handles r a guards (read >>= k) hs := hk

theorem Handles.get {k : State → Gen β} (hk : ∀ s : State, s.At a → Handles r a guards (k s) hs) :
    Handles r a guards (get >>= k) hs := fun s hat hguards => hk s hat s hat hguards

/-- What a generator writes into a buffer of its own is held by the rest. -/
theorem Handles.captured {g : Gen α} {k : Code × α → Gen β} (hg : Catches r a g us P Q) (hbalances : Balances g)
    (hk : ∀ code x, P code → Handles r a guards (k (code, x)) hs) : Handles r a guards (Generate.captured g >>= k) hs := by
  intro s hat hguards
  obtain ⟨hat', -, -, hcode, -⟩ := hg { s with code := s.code.continueFrom } hat rfl
  have hsame := (hbalances r { s with code := s.code.continueFrom }).guards_eq
  rw [after_captured_bind]
  generalize g.after r { s with code := s.code.continueFrom } = x at hat' hcode hsame
  exact hk x.2.code x.1 hcode { x.2 with code := s.code.absorbTokens x.2.code } hat' (hsame.trans hguards)

end

/-! ## Scopes and components -/

section

variable {r : Setting} {w : Site} {cs : Option (List (Span × String))} {guards : List String} {hs : List Handler} {g : Gen Unit}

theorem Handles.inScope (h : Handles r ⟨w.within [], cs⟩ guards g hs) : Handles r ⟨w, cs⟩ guards (Generate.inScope g) hs := by
  rintro s ⟨hscopes, hdepth, hwaiting⟩ hguards
  exact h { s with scopes := [] :: s.scopes } ⟨congrArg _ hscopes, hdepth, hwaiting⟩ hguards

theorem Handles.inComponent {ctx props : String} (h : Handles r ⟨w.inComponent, cs⟩ guards g hs) :
    Handles r ⟨w, cs⟩ guards (Generate.inComponent ctx props g) hs := by
  rintro s ⟨hscopes, hdepth, hwaiting⟩ hguards
  obtain ⟨ss, hss, hshown⟩ :=
    h { s with components := { contextVar := ctx, propsVar := props } :: s.components } ⟨hscopes, congrArg (· + 1) hdepth, hwaiting⟩ hguards
  refine ⟨ss, ?_, hshown⟩
  unfold Generate.inComponent
  rw [after_modify_bind, after_bind, after_get_bind]
  generalize g.after r _ = x at hss
  cases x.2.components <;> exact hss

/-! ## Listeners -/

theorem handles_listenerValue (d : Directive) : Handles r ⟨w, cs⟩ guards (listenerValue d) (listenerHandlers r w guards d) := by
  unfold listenerHandlers
  cases hexp : d.exp with
  | none => exact handles_nil (keeps_listenerValue d).prolongs
  | some x =>
    rw [Option.toList_some, List.flatMap_singleton]
    by_cases hcompound : isCompound r.reader x.content = true
    · rw [if_pos hcompound]
      rintro s ⟨hscopes, -, -⟩ rfl
      refine ⟨_, segments_listenerValue hexp hcompound s, ?_⟩
      intro h hh
      rw [List.mem_singleton.1 hh, ← hscopes]
      exact Handler.shows_segments _
    · rw [if_neg hcompound]
      exact handles_nil (keeps_listenerValue d).prolongs

theorem handles_modelListener (d : Directive) : Handles r ⟨w, cs⟩ guards (modelListener d) (modelHandlers w guards d) := by
  unfold modelHandlers
  cases hexp : d.exp with
  | none => exact handles_nil (keeps_modelListener d).prolongs
  | some x =>
    rintro s ⟨hscopes, -, -⟩ rfl
    refine ⟨_, segments_modelListener hexp s, ?_⟩
    intro h hh
    rw [Option.toList_some, List.map_singleton] at hh
    rw [List.mem_singleton.1 hh, ← hscopes]
    exact Handler.shows_segments _

theorem handles_checkListener (eventsVar : String) (d : Directive) :
    Handles r ⟨w, cs⟩ guards (checkListener eventsVar d) (checkedHandlers r w guards d) := by
  unfold checkListener checkedHandlers
  refine .quiet quiet_fresh balances_fresh fun _ => .quiet (quiet_ofComponent _ _) balances_propsVar fun _ => .text ?_
  by_cases hon : (d.name == "on") = true
  · rw [if_pos hon, if_pos hon]
    refine .quiet (quiet_listenerKey _ _ _) (balances_listenerKey _ _ _) fun _ => .text ?_
    exact .before (handles_listenerValue d) fun _ => (quiet_text _).prolongs
  · rw [if_neg hon, if_neg hon]
    exact .text (.before (handles_modelListener d) fun _ => (quiet_text _).prolongs)

theorem handles_checkListeners (componentVar : String) (eventsVar : Option String) (ds : List Directive) :
    Handles r ⟨w, cs⟩ guards (checkListeners componentVar eventsVar ds) (ds.flatMap (checkedHandlers r w guards)) := by
  induction ds generalizing eventsVar with
  | nil => exact handles_nil (quiet_pure ()).prolongs
  | cons d ds ih =>
    have hfirst : ∀ name, Handles r ⟨w, cs⟩ guards (checkListener name d) (checkedHandlers r w guards d) := fun name =>
      handles_checkListener name d
    have hrest := fun name =>
      (hfirst name).bind (resolves_checkListener name d) (balances_checkListener name d) fun _ => ih (some name)
    rw [List.flatMap_cons]
    cases eventsVar with
    | some name => exact .quiet (quiet_pure name) (balances_pure name) hrest
    | none => exact .quiet (quiet_eventsOf componentVar) (balances_eventsOf componentVar) hrest

theorem handles_componentListeners (e : Element) (componentVar : String) :
    Handles r ⟨w, cs⟩ guards (componentListeners e componentVar) (componentHandlers r w guards e) :=
  .read (handles_checkListeners componentVar none _)

/-! ## Entries -/

theorem handles_listenerEntry (isComponent : Bool) (d : Directive) :
    Handles r ⟨w, cs⟩ guards (listenerEntry isComponent d)
      (if d.arg.any (·.isStatic) && !isComponent then listenerHandlers r w guards d else []) := by
  have hnone : Handles r ⟨w, cs⟩ guards (listenerEntry isComponent d) [] := handles_nil (keeps_listenerEntry isComponent d).prolongs
  cases harg : d.arg with
  | none => exact hnone
  | some a =>
    rw [Option.any_some]
    cases hstatic : a.isStatic with
    | false => exact hnone
    | true =>
      cases isComponent with
      | true => exact hnone
      | false =>
        unfold listenerEntry
        rw [harg]
        simp only [hstatic, if_true, Bool.not_false, Bool.and_self, Bool.false_eq_true, if_false]
        refine .text (.quiet (quiet_listenerKey _ _ _) (balances_listenerKey _ _ _) fun _ => .text ?_)
        exact .before (handles_listenerValue d) fun _ => Quiet.prolongs (.bind (quiet_text _) fun _ => .bind (quiet_text _) fun _ => quiet_pure _)

theorem handles_listenerEntries (isComponent : Bool) (ps : List Property) :
    Handles r ⟨w, cs⟩ guards (listenerEntries isComponent ps) (entriesHandlers r w guards isComponent ps) := by
  unfold entriesHandlers
  induction ps with
  | nil => exact handles_nil (quiet_pure _).prolongs
  | cons p ps ih =>
    rw [List.flatMap_cons]
    cases p with
    | plain a => exact ih
    | directive d =>
      unfold listenerEntries
      have hmore : ∀ first : List Loose, Handles r ⟨w, cs⟩ guards (do
          let more ← listenerEntries isComponent ps
          pure (first ++ more)) _ := fun _ => .before ih fun _ => (quiet_pure _).prolongs
      by_cases hon : (d.name == "on") = true
      · simp only [ofDirective, hon, if_true, Bool.true_and]
        exact (handles_listenerEntry isComponent d).bind (leaves_listenerEntry isComponent d) (balances_listenerEntry isComponent d) hmore
      · simp only [ofDirective, hon, Bool.false_and, Bool.false_eq_true, if_false]
        exact hmore []

theorem handles_entries (e : Element) (ps : List Property) (strict : Bool) :
    Handles r ⟨w, cs⟩ guards (entries e ps strict) (entriesHandlers r w guards (e.kind == .component) ps) :=
  .before (handles_listenerEntries _ ps) fun _ => Closes.prolongs (.bind (keeps_valueEntries e (role_propertyOf strict) ps) fun _ => closes_pure _)

theorem handles_propertiesCall (e : Element) :
    Handles r ⟨w, cs⟩ guards (propertiesCall e) (entriesHandlers r w guards (e.kind == .component) e.props) := by
  refine .read (.quiet (quiet_openAt _ _) (balances_openAt _ _) fun b => .text (.before (handles_entries e e.props _) fun _ => ?_))
  refine Quiet.prolongs (.bind (quiet_text _) fun _ => .bind (quiet_close _ _) fun _ => ?_)
  exact .bind (quiet_text _) fun _ => quiet_pure _

/-! ## Elements -/

variable {inner : Gen Unit} {filled : Site → List Handler}

/-- A generator of what stands in an element writes the handlers of its site under the same guards, wherever that is. -/
abbrev FillsUnder (r : Setting) (guards : List String) (inner : Gen Unit) (filled : Site → List Handler) : Prop :=
  ∀ w : Site, Handles r ⟨w, some []⟩ guards inner (filled w)

theorem handles_declaredOutlet (e : Element) (slots : String) :
    Handles r ⟨w, cs⟩ guards (declaredOutlet e slots) (entriesHandlers r w guards (e.kind == .component) (withoutName e.props)) := by
  refine .text (.past (resolves_declaredSlot e slots) (balances_declaredSlot e slots) fun _ _ => .text ?_)
  refine .quiet (quiet_openAt _ _) (balances_openAt _ _) fun b => .text (.before (handles_entries e _ true) fun _ => ?_)
  exact Quiet.prolongs (.bind (quiet_text _) fun _ => .bind (quiet_close _ _) fun _ => quiet_text _)

theorem handles_inferredOutlet (e : Element) (variable' : String) :
    Handles r ⟨w, cs⟩ guards (inferredOutlet e variable') (entriesHandlers r w guards (e.kind == .component) e.props) := by
  refine .text (.read (.before (handles_entries e e.props _) fun _ => Closes.prolongs (.text ?_)))
  split
  · split <;> exact keeps_noteOutlet _ _ _
  · split
    · exact keeps_dynamicOutlet _ _
    · exact keeps_noteOutlet _ _ _
  · exact keeps_noteOutlet _ _ _

theorem handles_outlet (hinner : FillsUnder r guards inner filled) {e : Element} (hkind : e.kind = .slot) :
    Handles r ⟨w, some []⟩ guards (outlet e inner)
      (entriesHandlers r w guards false (if r.hasDefineSlots then withoutName e.props else e.props) ++ filled w) := by
  have hcomponent : (e.kind == .component) = false := by rw [hkind]; rfl
  rw [← hcomponent]
  refine .quiet quiet_fresh balances_fresh fun variable' => .read ?_
  dsimp only
  by_cases hdeclared : r.hasDefineSlots = true
  · rw [if_pos hdeclared, if_pos hdeclared]
    exact (handles_declaredOutlet e _).bind (resolves_declaredOutlet e _) (balances_declaredOutlet e _) fun _ => hinner w
  · rw [if_neg hdeclared, if_neg hdeclared]
    exact (handles_inferredOutlet e _).bind (resolves_inferredOutlet e _) (balances_inferredOutlet e _) fun _ => hinner w

/-- What fills a slot stands in the scope of its parameters. -/
theorem handles_slotContent (hinner : FillsUnder r guards inner filled) (d : Option Directive) (componentVar : String) :
    Handles r ⟨w, some []⟩ guards (slotContent d componentVar inner) (filled (w.within (slotNames r (d.bind (·.exp))))) := by
  refine .quiet quiet_fresh balances_fresh fun slotVar => ?_
  cases d with
  | none => exact .text (.text (.before (.inScope (hinner (w.within []))) fun _ => (quiet_pure ()).prolongs))
  | some d =>
    refine .text (.past (resolves_slotName d) (balances_slotName d) fun _ _ => .text ?_)
    simp only [Option.bind_some]
    cases d.exp with
    | none => exact .before (.inScope (hinner (w.within []))) fun _ => (quiet_text _).prolongs
    | some x =>
      refine .before (.inScope (.past (leads_slotParameters x slotVar) (balances_slotParameters x slotVar) fun _ _ => hinner _)) fun _ => ?_
      exact (quiet_text _).prolongs

theorem handles_native (hinner : FillsUnder r guards inner filled) {e : Element} (hkind : e.kind = .native) :
    Handles r ⟨w, some []⟩ guards (native e inner) (entriesHandlers r w guards false e.props ++ filled w) := by
  have hcomponent : (e.kind == .component) = false := by rw [hkind]; rfl
  rw [← hcomponent]
  unfold native
  refine .read (.text (.past (resolves_propertyAccess _ _ _) (balances_propertyAccess _ _ _) fun _ _ => ?_))
  extract_lets type last inherits rooted call
  have hinherits : ∀ u, Handles r ⟨w, some []⟩ guards (inherits u) (filled w) := fun _ =>
    .quiet (quiet_inheritsAttributes e) (balances_inheritsAttributes e) fun _ =>
      .whenever (quiet_noteInheritor _) (balances_noteInheritor _) (hinner w)
  have hrooted : ∀ u, Handles r ⟨w, some []⟩ guards (rooted u) (filled w) := fun _ =>
    .quiet (quiet_isRoot e) (balances_isRoot e) fun _ => .whenever (quiet_noteRootType _) (balances_noteRootType _) (hinherits ())
  have hcall : ∀ u, Handles r ⟨w, some []⟩ guards (call u) (entriesHandlers r w guards (e.kind == .component) e.props ++ filled w) := by
    refine fun _ => .text ((handles_propertiesCall e).bind (leaves_propertiesCall e) (balances_propertiesCall e) fun loose => ?_)
    refine .past (resolves_writeLoose _) (balances_writeLoose _) fun _ _ => ?_
    refine .past (resolves_checkDirectives _) (balances_checkDirectives _) fun _ _ => ?_
    refine .past (resolves_elementRef e) (balances_elementRef e) fun ref _ => ?_
    cases ref with
    | none => exact hrooted ()
    | some target =>
      exact .quiet quiet_manyMark balances_manyMark fun _ => .quiet (quiet_noteRef _ _ _) (balances_noteRef _ _ _) hrooted
  cases e.endTagOffset r.source with
  | none => exact hcall ()
  | some stop => exact .text (.past (resolves_propertyAccess _ _ _) (balances_propertyAccess _ _ _) fun _ _ => hcall ())

theorem handles_group (hinner : FillsUnder r guards inner filled) {e : Element} (hkind : e.kind = .template) :
    Handles r ⟨w, some []⟩ guards (group e inner) (entriesHandlers r w guards false e.props ++ filled w) := by
  have hcomponent : (e.kind == .component) = false := by rw [hkind]; rfl
  rw [← hcomponent]
  unfold group
  cases hprops : e.props with
  | nil => exact hinner w
  | cons p ps =>
    rw [← hprops]
    have hne : (!e.props.isEmpty) = true := by rw [hprops]; rfl
    rw [if_pos hne]
    refine .read (.text ?_)
    exact (handles_propertiesCall e).bind (leaves_propertiesCall e) (balances_propertiesCall e) fun _ => hinner w

/-- A component is called with its properties, of which none is a handler; its listeners are checked behind the call. -/
theorem handles_component (hinner : FillsUnder r guards inner filled) (e : Element) (hasChildren : Bool) :
    Handles r ⟨w, some []⟩ guards (component e hasChildren inner)
      (componentHandlers r w.inComponent guards e ++ if (e.directive "slot").isSome || hasChildren then
        filled (w.inComponent.within (slotNames r ((e.directive "slot").bind (·.exp)))) else []) := by
  refine .read (.quiet quiet_fresh balances_fresh fun component => .quiet quiet_fresh balances_fresh fun function => ?_)
  refine .quiet quiet_fresh balances_fresh fun node => .quiet quiet_fresh balances_fresh fun ctx => ?_
  refine .quiet quiet_fresh balances_fresh fun props => .before (.inComponent ?_) fun used => ?_
  · refine .past (resolves_componentVariable _ _) (balances_componentVariable _ _) fun _ _ => ?_
    refine .captured (leaves_entries e _ _).catches (balances_entries e _ _) fun code loose hcode => ?_
    refine .past (leads_componentCall hcode e _ _) (balances_componentCall e _ _ _) fun _ _ => ?_
    refine .past (resolves_writeLoose _) (balances_writeLoose _) fun _ _ => ?_
    refine (handles_componentListeners e _).bind (resolves_componentListeners e _) (balances_componentListeners e _) fun _ => ?_
    refine .past (resolves_checkDirectives _) (balances_checkDirectives _) fun _ _ => ?_
    refine .past (resolves_componentInstance e _) (balances_componentInstance e _) fun _ _ => ?_
    refine .quiet (quiet_inheritsAttributes e) (balances_inheritsAttributes e) fun inherits => ?_
    extract_lets d contents
    have hcontents : ∀ u, Handles r ⟨w.inComponent, some []⟩ guards (contents u) (if (e.directive "slot").isSome || hasChildren then
        filled (w.inComponent.within (slotNames r ((e.directive "slot").bind (·.exp)))) else []) := by
      intro u
      by_cases hfilled : ((e.directive "slot").isSome || hasChildren) = true
      · simp only [contents, d, hfilled, if_true]
        exact .quiet (quiet_ofComponent _ _) balances_contextVar fun _ => handles_slotContent hinner _ _
      · simp only [contents, d, hfilled]
        exact handles_nil (quiet_pure ()).prolongs
    cases inherits with
    | false => exact hcontents ()
    | true =>
      exact .quiet (quiet_ofComponent _ _) balances_propsVar fun _ => .quiet (quiet_noteInheritor _) (balances_noteInheritor _) hcontents
  · exact Quiet.prolongs (.whenever (quiet_text _) (.ite (quiet_text _) (quiet_pure ())))

theorem handles_element (hinner : FillsUnder r guards inner filled) (e : Element) (hasChildren : Bool) :
    Handles r ⟨w, some []⟩ guards (element e hasChildren inner) (elementHandlers r filled w guards e hasChildren) := by
  unfold element elementHandlers
  cases hkind : e.kind with
  | slot => exact handles_outlet hinner hkind
  | native => exact handles_native hinner hkind
  | component => exact handles_component hinner e hasChildren
  | template =>
    cases hslot : e.directive "slot" with
    | none => exact handles_group hinner hkind
    | some d =>
      refine .get fun s hs => ?_
      dsimp only
      by_cases hdepth : w.depth = 0
      · have hempty : s.components.isEmpty = true := List.isEmpty_iff_length_eq_zero.2 (hs.2.1.trans hdepth)
        rw [if_pos hempty, hdepth]
        exact handles_group hinner hkind
      · have hempty : ¬s.components.isEmpty = true := fun h => hdepth (hs.2.1.symm.trans (List.isEmpty_iff_length_eq_zero.1 h))
        have hinside : (Option.isSome (some d) && w.depth != 0) = true := by simpa using hdepth
        rw [if_neg hempty, if_pos hinside]
        exact .quiet (quiet_ofComponent _ _) balances_contextVar fun _ => handles_slotContent hinner (some d) _

end

end Generate

end TypedSfc
