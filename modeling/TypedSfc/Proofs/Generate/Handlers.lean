import TypedSfc.Proofs.Generate.BalancedNodes

/-!
# Handlers under guards

A compound listener, which is neither a function nor the name of one, becomes the body of a function, and so does a model that is checked
as a listener. Either runs later than what stands around it, so it starts with an early return for each guard in force. These functions
are told from the tree of a template: the guards are passed down into it, and grow by the conditions of a chain on the way into its
branches.

The listener of a computed event becomes a function too, but no property carries it: it is written on a line of its own, without guards.
-/

namespace TypedSfc

namespace Generate

open Markup (Branch Directive Element Node Property)

/-! ## Handlers -/

/-- A function for an event: the guards it starts with, the scopes of its statements, the statements, and what is written behind them. -/
structure Handler where
  guards : List String
  scopes : List (List String)
  statements : Markup.Expression
  behind : String

namespace Handler

/-- The early return for the case that a guard does not hold. -/
def earlyReturn (guard : String) : String := "if (!" ++ guard ++ ") return;\n"

/-- What a handler is written as: the head of a function, one early return for each guard in order, and then the statements. -/
def segments (r : Setting) (e : Option Effect) (h : Handler) : List Segment :=
  .text "(...[$event]) => \x7b\n" :: (h.guards.map (fun g => .text (earlyReturn g)) ++
    (expressionSegments r e h.scopes SourceId.template h.statements.content h.statements.offset Info.checked "" "" ++
      [.text h.behind, .text "\x7d"]))

/-- A handler is written among some segments, from its head to its end. -/
def Shows (r : Setting) (h : Handler) (ss : List Segment) : Prop := ∃ e pre post, ss = pre ++ (h.segments r e ++ post)

variable {r : Setting} {h : Handler} {as ss : List Segment}

theorem shows_segments (e : Option Effect) : h.Shows r (h.segments r e) := ⟨e, [], [], (List.append_nil _).symm⟩

theorem Shows.append (hs : h.Shows r as) (ss : List Segment) : h.Shows r (as ++ ss) := by
  obtain ⟨e, pre, post, rfl⟩ := hs
  exact ⟨e, pre, post ++ ss, by simp only [List.append_assoc]⟩

theorem Shows.behind (hs : h.Shows r ss) (as : List Segment) : h.Shows r (as ++ ss) := by
  obtain ⟨e, pre, post, rfl⟩ := hs
  exact ⟨e, as ++ pre, post, by rw [List.append_assoc]⟩

end Handler

/-! ## Handlers of elements -/

/-- The handler of a listener. A function or its name is none. -/
def listenerHandlers (r : Setting) (w : Site) (guards : List String) (d : Directive) : List Handler :=
  d.exp.toList.flatMap fun x => if isCompound r.reader x.content then [⟨guards, ["$event"] :: w.scopes, x, ";\n"⟩] else []

/-- The handler of the listener that a model stands for. -/
def modelHandlers (w : Site) (guards : List String) (d : Directive) : List Handler :=
  d.exp.toList.map fun x => ⟨guards, w.scopes, x, " = $event;\n"⟩

/-- The handlers among the properties of an element. Those of a component are no entries, but are checked on their own. The listeners of
computed events are none: they are left over. -/
def entriesHandlers (r : Setting) (w : Site) (guards : List String) (isComponent : Bool) (ps : List Property) : List Handler :=
  ps.flatMap (ofDirective fun d =>
    if d.name == "on" && d.arg.any (·.isStatic) && !isComponent then listenerHandlers r w guards d else [])

/-- Whether a use is the function of a listener of a computed event, which is left over by the properties of an element. -/
def Use.listensComputed (u : Use) : Bool :=
  match u.reading with
  | .expression _ _ _ _ front back => front == "() => \x7b" && back == "\x7d"
  | .parameters _ | .shorthand _ _ | .member _ => false

/-- The handlers of the checks of the listeners of a component. -/
def checkedHandlers (r : Setting) (w : Site) (guards : List String) (d : Directive) : List Handler :=
  if d.name == "on" then listenerHandlers r w guards d else modelHandlers w guards d

/-- The handlers of the listeners and models of a component that are checked. -/
def componentHandlers (r : Setting) (w : Site) (guards : List String) (e : Element) : List Handler :=
  (e.props.filterMap fun
    | .directive d => if isEventDirective (r.options.flag .strictVModel) d then some d else none
    | .plain _ => none).flatMap (checkedHandlers r w guards)

/-- The handlers of an element, with those of what stands in it. -/
def elementHandlers (r : Setting) (inner : Site → List Handler) (w : Site) (guards : List String) (e : Element) (hasChildren : Bool) :
    List Handler :=
  let filled (w : Site) := inner (w.within (slotNames r ((e.directive "slot").bind (·.exp))))
  match e.kind with
  | .slot => entriesHandlers r w guards false (if r.hasDefineSlots then withoutName e.props else e.props) ++ inner w
  | .native => entriesHandlers r w guards false e.props ++ inner w
  | .component => componentHandlers r w.inComponent guards e ++
      if (e.directive "slot").isSome || hasChildren then filled w.inComponent else []
  | .template =>
    if (e.directive "slot").isSome && w.depth != 0 then filled w
    else entriesHandlers r w guards false e.props ++ inner w

/-! ## Handlers of nodes -/

mutual

/-- The handlers of a node before which some comments wait. -/
def nodeHandlers (r : Setting) (w : Site) (guards : List String) (cs : List (Span × String)) : Node → List Handler
  | .comment _ _ | .text _ _ | .interpolation _ _ => []
  | .element e children =>
    if skips cs then [] else elementHandlers r (fun w => nodesHandlers r w guards [] children) w guards e (!children.isEmpty)
  | .loop _ h children => if skips cs then [] else nodesHandlers r (w.within (loopNamesOf r h)) guards [] children
  | .chain _ bs => if skips cs then [] else branchesHandlers r w guards [] bs

/-- The handlers of nodes. -/
def nodesHandlers (r : Setting) (w : Site) (guards : List String) (cs : List (Span × String)) : List Node → List Handler
  | [] => []
  | n :: ns => nodeHandlers r w guards cs n ++ nodesHandlers r w guards (waitBehind cs n) ns

/-- The handlers of the branches of a chain. The condition of a branch is a guard in it, and its negation is one in the branches behind. -/
def branchesHandlers (r : Setting) (w : Site) (guards : List String) (cs : List (Span × String)) : List Branch → List Handler
  | [] => []
  | .mk _ x children :: bs =>
    nodesHandlers r w (guards ++ x.toList.map (conditionText r w.scopes)) cs children ++
      branchesHandlers r w (guards ++ x.toList.map fun x => "!" ++ conditionText r w.scopes x) (children.foldl waitBehind cs) bs

end

/-! ## What is written of a handler -/

section

variable {r : Setting}

/-- The guards are written as early returns, one after another. -/
theorem after_writeGuards (r : Setting) (s : State) :
    (writeGuards.after r s).2 = { s with code := s.code.extend (s.guards.map fun g => .text (Handler.earlyReturn g)) } := by
  have hforIn : ∀ (gs : List String) (s : State), ((forIn gs PUnit.unit fun g _ => do
      text ("if (!" ++ g ++ ") return;\n")
      pure (ForInStep.yield PUnit.unit) : Gen PUnit).after r s).2 =
        { s with code := s.code.extend (gs.map fun g => .text (Handler.earlyReturn g)) } := by
    intro gs
    induction gs with
    | nil =>
      intro s
      exact congrArg (fun ss => { s with code := { s.code with segments := ss } }) (List.append_nil s.code.segments).symm
    | cons g gs ih =>
      intro s
      rw [List.forIn_cons]
      have hne : ("if (!" ++ g ++ ") return;\n").isEmpty = false := by
        rw [String.isEmpty_eq_false_iff]
        intro hempty
        have hlength := congrArg String.length hempty
        simp at hlength
      have htext : s.code.text ("if (!" ++ g ++ ") return;\n") = s.code.extend [.text (Handler.earlyReturn g)] := by
        unfold Code.text
        rw [hne]
        rfl
      refine (ih { s with code := s.code.text ("if (!" ++ g ++ ") return;\n") }).trans ?_
      rw [htext]
      simp only [Code.extend, List.map_cons, List.append_assoc, List.singleton_append]
  exact hforIn s.guards s

/-- The statements of a handler behind its early returns. -/
theorem segments_guarded (x : Markup.Expression) {behind : String} (hbehind : behind.isEmpty = false) (s : State) :
    ((do
      writeGuards
      expression x.content x.offset "" ""
      text behind : Gen Unit).after r s).2.code.segments =
        s.code.segments ++ (s.guards.map (fun g => .text (Handler.earlyReturn g)) ++
          (expressionSegments r s.code.effect s.scopes SourceId.template x.content x.offset Info.checked "" "" ++ [.text behind])) := by
  rw [after_bind, after_writeGuards, after_bind]
  obtain ⟨hsegments, -, -⟩ := writes_expressionIn (r := r) s.code.effect s.scopes SourceId.template x.content x.offset Info.checked "" ""
    { s with code := s.code.extend (s.guards.map fun g => .text (Handler.earlyReturn g)) } rfl rfl
  have htext : ∀ c : Code, (c.text behind).segments = c.segments ++ [.text behind] := by
    intro c
    unfold Code.text
    rw [hbehind]
    rfl
  refine (htext _).trans ?_
  rw [show expression x.content x.offset "" "" = expressionIn SourceId.template x.content x.offset Info.checked "" "" from rfl, hsegments]
  simp only [Code.extend, List.append_assoc]

/-- The statements of a handler between the head and the end of its function, in scopes of its own. -/
theorem segments_handler (x : Markup.Expression) {behind : String} (hbehind : behind.isEmpty = false) (scopes : List (List String))
    (s : State) :
    (((do
      writeGuards
      expression x.content x.offset "" ""
      text behind : Gen Unit).after r { s with code := s.code.text "(...[$event]) => \x7b\n", scopes := scopes }).2.code.text
        "\x7d").segments = s.code.segments ++ Handler.segments r s.code.effect ⟨s.guards, scopes, x, behind⟩ := by
  show _ ++ [Segment.text "\x7d"] = _
  rw [segments_guarded x hbehind, Handler.segments]
  show (s.code.segments ++ [Segment.text "(...[$event]) => \x7b\n"]) ++ _ ++ _ = _
  simp only [List.append_assoc, List.cons_append, List.nil_append]
  rfl

/-- A listener of several statements is written as its handler under the guards in force. -/
theorem segments_listenerValue {d : Directive} {x : Markup.Expression} (hexp : d.exp = some x)
    (hcompound : isCompound r.reader x.content = true) (s : State) :
    ((listenerValue d).after r s).2.code.segments =
      s.code.segments ++ Handler.segments r s.code.effect ⟨s.guards, ["$event"] :: s.scopes, x, ";\n"⟩ := by
  rw [← segments_handler x rfl (["$event"] :: s.scopes), listenerValue, hexp]
  dsimp only
  rw [after_read_bind, if_pos hcompound]
  rfl

/-- A model is written as its handler under the guards in force. -/
theorem segments_modelListener {d : Directive} {x : Markup.Expression} (hexp : d.exp = some x) (s : State) :
    ((modelListener d).after r s).2.code.segments =
      s.code.segments ++ Handler.segments r s.code.effect ⟨s.guards, s.scopes, x, " = $event;\n"⟩ := by
  rw [← segments_handler x rfl s.scopes, modelListener, hexp]
  rfl

end

end Generate

end TypedSfc
