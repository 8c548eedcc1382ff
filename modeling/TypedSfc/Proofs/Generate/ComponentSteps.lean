import TypedSfc.Proofs.Generate.Guarded

/-!
# Steps of a component

A component is written in steps: its variable, its properties into a buffer of their own, the call that takes them, and what stands
behind the call. Each step goes on where the one before it ended, and takes nothing back; so what the variable or the call is written as
is part of the code of the component, and both are written under the frames that were open when the component began.
-/

namespace TypedSfc

namespace Generate

open Markup (Element)

/-- Writes a component inside its scope. -/
def inComponentScope (setting : Setting) (e : Element) (hasChildren : Bool) (inner : Gen Unit) (v : ComponentVars) : Gen Unit := do
  let c := Callee.ofElement e setting.source
  componentVariable v.component c
  let (props, loose) ← captured (entries e c.props (setting.options.flag .checkUnknownProps))
  componentCall e c v props
  behindCall e hasChildren inner c v loose

/-- Writes the function that a component is called by. -/
def callFunction (v : ComponentVars) (props : Code) : Gen Unit := do
  let strict := (← read).options.flag .checkUnknownProps
  text "// @ts-ignore\n"
  text ("const " ++ v.function ++ " = " ++ asFunctional "asFunctionalComponent" strict ++ "(" ++ v.component ++ ", new " ++ v.component ++
    "(\x7b\n" ++ props.toText ++ "\x7d));\n")

/-- Writes the call of a component up to its argument. -/
def callHead (e : Element) (function node : String) : Gen Unit := do
  text "const "
  bounded e.span.start e.span.stop Info.unusedName node
  text (" = " ++ function)
  match ← currentGeneric with
  | some g => writeGeneric g
  | none => pure ()
  text "("

/-- Writes the argument of the call of a component, and its end. -/
def callTail (c : Callee) (function : String) (props : Code) : Gen Unit := do
  let b ← openAt c.start Info.checked
  text "\x7b\n"
  onCode (·.append props)
  text "\x7d"
  close b (c.start + c.code.utf8ByteSize)
  text (", ..." ++ Names.ofKey "functionalComponentArgsRest" ++ "(" ++ function ++ "));\n")

namespace State

/-- The variables of the next component. -/
def nextVars (s : State) : ComponentVars :=
  ⟨Names.temporary s.nextTemporary, Names.temporary (s.nextTemporary + 1), Names.temporary (s.nextTemporary + 2)⟩

/-- A state in the scope of the next component. -/
def inNextComponent (s : State) : State :=
  { s with
    nextTemporary := s.nextTemporary + 5
    components := ⟨Names.temporary (s.nextTemporary + 3), Names.temporary (s.nextTemporary + 4), false, false⟩ :: s.components }

end State

section

variable {r : Setting}

theorem segments_text {t : String} (h : t ≠ "") (c : Code) : (c.text t).segments = c.segments ++ [.text t] := by
  rw [Code.text, if_neg (mt String.isEmpty_iff.1 h)]
  rfl

theorem code_after_text (t : String) (s : State) : ((text t).after r s).2.code = s.code.text t := rfl

/-- Text in a group of its own stands between the marks of the group. -/
theorem segments_bounded {t : String} (h : t ≠ "") (c : Code) (source : SourceId) (start stop : Nat) (i : Info) :
    (c.bounded source start stop i t).segments = c.segments ++
      [.mapped "" source start ((c.resolve i).withRole (.opens c.nextToken)), .text t,
        .mapped "" source stop (Info.silent.withRole (.closes c.nextToken))] := by
  show (Code.text _ t).segments ++ [_] = _
  rw [segments_text h]
  exact (congrArg (· ++ [_]) (List.append_assoc c.segments [_] [_])).trans (List.append_assoc c.segments [_, _] [_])

theorem prolongs_text (t : String) : Prolongs r (text t) := (quiet_text t).prolongs

theorem Prolongs.bind {α β : Type} {g : Gen α} {k : α → Gen β} (hg : Prolongs r g) (hk : ∀ a, Prolongs r (k a)) : Prolongs r (g >>= k) :=
  fun s => (hg s).trans (hk (g.after r s).1 (g.after r s).2)

/-- Writes a component from its variables on. -/
def withVars (setting : Setting) (e : Element) (hasChildren : Bool) (inner : Gen Unit) (v : ComponentVars)
    (ctxName propsName : String) : Gen Unit := do
  let (ctxUsed, propsUsed) ← inComponent ctxName propsName (inComponentScope setting e hasChildren inner v)
  let types := "<typeof " ++ v.component ++ ", typeof " ++ v.node ++ ">;\n"
  if ctxUsed then text ("var " ++ ctxName ++ "!: " ++ Names.ofKey "FunctionalComponentCtx" ++ types)
  if propsUsed then text ("var " ++ propsName ++ "!: " ++ Names.ofKey "FunctionalComponentProps" ++ types)

theorem after_fresh_bind {α : Type} (k : String → Gen α) (s : State) :
    (fresh >>= k).after r s = (k (Names.temporary s.nextTemporary)).after r { s with nextTemporary := s.nextTemporary + 1 } := rfl

theorem after_component (s : State) (e : Element) (hasChildren : Bool) (inner : Gen Unit) :
    (component e hasChildren inner).after r s = (withVars r e hasChildren inner s.nextVars (Names.temporary (s.nextTemporary + 3))
      (Names.temporary (s.nextTemporary + 4))).after r { s with nextTemporary := s.nextTemporary + 5 } := by
  unfold component
  rw [after_read_bind, after_fresh_bind, after_fresh_bind, after_fresh_bind, after_fresh_bind, after_fresh_bind]
  rfl

theorem code_after_inComponent (ctxName propsName : String) (g : Gen Unit) (s : State) :
    ((inComponent ctxName propsName g).after r s).2.code =
      (g.after r { s with components := ⟨ctxName, propsName, false, false⟩ :: s.components }).2.code := by
  unfold inComponent
  rw [after_modify_bind, after_bind, after_get_bind]
  split <;> rfl

/-- The code of a component goes on from that of its scope. -/
theorem prefix_component (s : State) (e : Element) (hasChildren : Bool) (inner : Gen Unit) :
    ((inComponentScope r e hasChildren inner s.nextVars).after r s.inNextComponent).2.code.segments <+:
      ((component e hasChildren inner).after r s).2.code.segments := by
  rw [after_component]
  have hcode : ((inComponent (Names.temporary (s.nextTemporary + 3)) (Names.temporary (s.nextTemporary + 4))
      (inComponentScope r e hasChildren inner s.nextVars)).after r { s with nextTemporary := s.nextTemporary + 5 }).2.code =
        ((inComponentScope r e hasChildren inner s.nextVars).after r s.inNextComponent).2.code := code_after_inComponent ..
  unfold withVars
  rw [after_bind, ← hcode]
  have htypes : ∀ (a b : Bool) (t u : String), Keeps 0 (if a then text t >>= fun _ => if b then text u else pure () else
      if b then text u else pure ()) := fun a b t u =>
    .whenever (keeps_text t) (.ite (fun _ => keeps_text u) fun _ => closes_pure ())
  exact (htypes _ _ _ _).prolongs _

theorem componentCall_eq (e : Element) (c : Callee) (v : ComponentVars) (props : Code) :
    componentCall e c v props = (do
      callFunction v props
      callHead e v.function v.node
      callTail c v.function props) := by
  unfold componentCall callFunction callHead callTail
  simp only [bind_assoc]
  refine bind_congr fun _ => bind_congr fun _ => bind_congr fun _ => bind_congr fun _ => bind_congr fun _ => bind_congr fun _ => ?_
  refine bind_congr fun g => ?_
  cases g <;> simp only [bind_assoc]

theorem prolongs_callFunction (v : ComponentVars) (props : Code) : Prolongs r (callFunction v props) :=
  .bind keeps_read.prolongs fun _ => .bind (prolongs_text _) fun _ => prolongs_text _

theorem prolongs_callHead (e : Element) (function node : String) : Prolongs r (callHead e function node) := by
  unfold callHead
  refine .bind (prolongs_text _) fun _ => .bind (quiet_bounded _ _ _ _).prolongs fun _ => .bind (prolongs_text _) fun _ => ?_
  refine .bind (quiet_currentGeneric).prolongs fun g => ?_
  split
  · exact .bind (quiet_writeGeneric _).prolongs fun _ => prolongs_text _
  · exact prolongs_text _

theorem prolongs_callTail (c : Callee) (function : String) (props : Code) : Prolongs r (callTail c function props) :=
  .bind (quiet_openAt _ _).prolongs fun _ => .bind (prolongs_text _) fun _ =>
    .bind (fun s => List.prefix_append s.code.segments props.segments) fun _ => .bind (prolongs_text _) fun _ =>
      .bind (quiet_close _ _).prolongs fun _ => prolongs_text _

theorem prolongs_componentCall (e : Element) (c : Callee) (v : ComponentVars) (props : Code) : Prolongs r (componentCall e c v props) := by
  rw [componentCall_eq]
  exact .bind (prolongs_callFunction _ _) fun _ => .bind (prolongs_callHead _ _ _) fun _ => prolongs_callTail _ _ _

theorem inside_component {e : Element} (hkind : e.kind = .component) (children : List Markup.Node) :
    inside (.element e children) = component e (!children.isEmpty) (nodes children) := by
  show element e _ _ = _
  rw [element, hkind]

/-- The variable of a component is written first, and then its call, under the frames that were open before. -/
theorem component_steps (s : State) (e : Element) (hasChildren : Bool) {inner : Gen Unit} (hinner : Keeps 0 inner) :
    ∃ (t : State) (props : Code), t.frames = s.frames ∧
      t.code.segments = ((componentVariable s.nextVars.component (Callee.ofElement e r.source)).after r s.inNextComponent).2.code.segments ∧
      ((componentCall e (Callee.ofElement e r.source) s.nextVars props).after r t).2.code.segments <+:
        ((component e hasChildren inner).after r s).2.code.segments := by
  have hprefix := prefix_component (r := r) s e hasChildren inner
  unfold inComponentScope at hprefix
  rw [after_bind, after_captured_bind] at hprefix
  have hvariable := balances_componentVariable s.nextVars.component (Callee.ofElement e r.source) r s.inNextComponent
  generalize (componentVariable s.nextVars.component (Callee.ofElement e r.source)).after r s.inNextComponent = x at *
  dsimp only at hprefix
  have hentries := balances_entries e (Callee.ofElement e r.source).props (r.options.flag .checkUnknownProps) r
    { x.2 with code := x.2.code.continueFrom }
  generalize (entries e (Callee.ofElement e r.source).props (r.options.flag .checkUnknownProps)).after r
    { x.2 with code := x.2.code.continueFrom } = y at *
  refine ⟨{ y.2 with code := x.2.code.absorbTokens y.2.code }, y.2.code, hentries.frames_eq.trans hvariable.frames_eq, rfl, ?_⟩
  exact ((keeps_behindCall e hasChildren hinner _ _ y.1).prolongs _).trans hprefix
end

end Generate

end TypedSfc
