import TypedSfc.Proofs.Generate.Guarded
import TypedSfc.Proofs.Generate.Waiting

/-!
# Guards state the path to a branch

By induction over the tree, all nodes write their handlers. The invariant is that the guards of the state are those passed down to the
node: a chain is the only node that adds guards, and it does so branch by branch. What stands in a branch runs only if none of the
conditions before it holds and its own does, and this is what the guards in the branch say, behind those around the chain.
-/

namespace TypedSfc

namespace Generate

open Markup (Branch Directive Element LoopHead Node Property)

section

variable {r : Setting} {w : Site} {cs : List (Span × String)} {guards : List String} {hs : List Handler} {inner : Gen Unit}
  {filled : Site → List Handler}

/-! ## Frames and loops -/

theorem turns_enter {a : Point} : Turns r a guards enter guards := by
  intro s _ hguards
  rw [after_enter]
  dsimp only
  cases (frameOf s.nextExpectation {} s.pending).2 <;> exact hguards

/-- A node that is passed over writes no handlers. -/
theorem handles_asNode {g : Gen Unit} (hg : Handles r ⟨w, some []⟩ guards g hs) :
    Handles r ⟨w, some cs⟩ guards (asNode g) (if skips cs then [] else hs) := by
  refine (leads_enter cs).handles.across (leads_enter cs) turns_enter fun entered hentered => ?_
  rw [hentered]
  cases skips cs with
  | true => exact handles_nil (quiet_pure ()).prolongs
  | false => exact hg.before fun _ => Closes.prolongs keeps_leave

theorem Handles.asLoopBody {a : Point} {g : Gen Unit} (hg : Handles r a guards g hs) : Handles r a guards (Generate.asLoopBody g) hs :=
  fun s hat hguards => hg { s with inLoop := true } hat hguards

/-- What stands in a loop stands in the scope of its names. -/
theorem handles_loop (hinner : FillsUnder r guards inner filled) (h : LoopHead) :
    Handles r ⟨w, some []⟩ guards (loop h inner) (filled (w.within (loopNamesOf r h))) := by
  have hbody : Handles r ⟨w.within (loopNamesOf r h), some []⟩ guards
      (text ") \x7b\n" >>= fun _ => asLoopBody inner >>= fun _ => text "\x7d\n") (filled (w.within (loopNamesOf r h))) :=
    .text (.before (.asLoopBody (hinner _)) fun _ => (quiet_text _).prolongs)
  refine .inScope (.text (.past (leads_loopNames h) (balances_loopNames h) fun _ _ => .text ?_))
  split
  · exact .text (.past (resolves_expression _ _ _ _) (balances_expression _ _ _ _) fun _ _ => .text hbody)
  · exact .text hbody

/-! ## Chains -/

theorem turns_condition {a : Point} (x : Markup.Expression) :
    Turns r a guards (condition x) (guards ++ [conditionText r a.site.scopes x]) := by
  rintro s ⟨hscopes, -⟩ rfl
  rw [← hscopes]
  exact (balanced_condition x s).1.guards_eq

theorem turns_branch {a : Point} (isFirst : Bool) (x : Option Markup.Expression) (hinner : Balances inner) :
    Turns r a guards (branch isFirst x inner) (guards ++ x.toList.map fun x => "!" ++ conditionText r a.site.scopes x) := by
  rintro s ⟨hscopes, -⟩ rfl
  rw [← hscopes]
  exact (balanced_branch isFirst x hinner s).guards_eq

/-- The condition of a branch holds in it. -/
theorem handles_branch (isFirst : Bool) (x : Option Markup.Expression)
    (hinner : Handles r ⟨w, some cs⟩ (guards ++ x.toList.map (conditionText r w.scopes)) inner hs) :
    Handles r ⟨w, some cs⟩ guards (branch isFirst x inner) hs := by
  have hbody : Handles r ⟨w, some cs⟩ (guards ++ x.toList.map (conditionText r w.scopes)) (do
      text "\x7b\n"
      inner
      text "\x7d\n"
      if x.isSome then modify fun s => { s with guards := negateLast s.guards }) hs := by
    refine .text (.before hinner fun _ => Closes.prolongs (.bind (keeps_text _) fun _ => ?_))
    exact .ite (fun _ => keeps_modify fun _ => rfl) fun _ => closes_pure ()
  unfold branch
  refine .text ?_
  cases x with
  | none => exact List.append_nil guards ▸ hbody
  | some x => exact (resolves_condition x).handles.across (resolves_condition x) (turns_condition x) fun _ _ => hbody

/-! ## All nodes -/

mutual

theorem handles_node (w : Site) (guards : List String) (cs : List (Span × String)) (n : Node) :
    Handles r ⟨w, some cs⟩ guards (node n) (nodeHandlers r w guards cs n) := by
  cases n with
  | comment span data => exact handles_nil (Closes.prolongs (keeps_node (.comment span data)))
  | text span data => exact handles_nil (Closes.prolongs (keeps_node (.text span data)))
  | interpolation span x => exact handles_nil (Closes.prolongs (keeps_node (.interpolation span x)))
  | element e children => exact handles_asNode (handles_element (fun w => handles_nodes w guards [] children) e _)
  | loop span h children => exact handles_asNode (handles_loop (fun w => handles_nodes w guards [] children) h)
  | chain span bs =>
    exact handles_asNode (.get fun _ _ => .before (handles_branches w guards [] true bs) fun _ =>
      Closes.prolongs (keeps_modify fun _ => rfl))

/-- From any point and under any guards, nodes write the handlers that the tree tells. -/
theorem handles_nodes (w : Site) (guards : List String) (cs : List (Span × String)) (ns : List Node) :
    Handles r ⟨w, some cs⟩ guards (nodes ns) (nodesHandlers r w guards cs ns) := by
  cases ns with
  | nil => exact handles_nil (quiet_pure ()).prolongs
  | cons n ns =>
    exact (handles_node w guards cs n).bind (leads_node w cs n) (balances_node n) fun _ => handles_nodes w guards (waitBehind cs n) ns

theorem handles_branches (w : Site) (guards : List String) (cs : List (Span × String)) (isFirst : Bool) (bs : List Branch) :
    Handles r ⟨w, some cs⟩ guards (branches isFirst bs) (branchesHandlers r w guards cs bs) := by
  cases bs with
  | nil => exact handles_nil (quiet_pure ()).prolongs
  | cons b bs =>
    obtain ⟨span, x, children⟩ := b
    have hbranch := handles_branch isFirst x (handles_nodes w (guards ++ x.toList.map (conditionText r w.scopes)) cs children)
    exact hbranch.across (leads_branch isFirst x (leads_nodes w cs children)) (turns_branch isFirst x (balances_nodes children))
      fun _ _ => handles_branches w _ _ false bs

end

/-! ## Guards of handlers -/

theorem guards_of_mem_listenerHandlers {d : Directive} {h : Handler} (hh : h ∈ listenerHandlers r w guards d) : h.guards = guards := by
  unfold listenerHandlers at hh
  obtain ⟨x, -, hx⟩ := List.mem_flatMap.1 hh
  rw [List.mem_singleton.1 (List.mem_ite_nil_right.1 hx).2]

theorem guards_of_mem_checkedHandlers {d : Directive} {h : Handler} (hh : h ∈ checkedHandlers r w guards d) : h.guards = guards := by
  unfold checkedHandlers at hh
  split at hh
  · exact guards_of_mem_listenerHandlers hh
  · obtain ⟨x, -, rfl⟩ := List.mem_map.1 hh
    rfl

theorem guards_of_mem_componentHandlers {e : Element} {h : Handler} (hh : h ∈ componentHandlers r w guards e) : h.guards = guards := by
  obtain ⟨d, -, hd⟩ := List.mem_flatMap.1 hh
  exact guards_of_mem_checkedHandlers hd

theorem guards_of_mem_entriesHandlers {isComponent : Bool} {ps : List Property} {h : Handler}
    (hh : h ∈ entriesHandlers r w guards isComponent ps) : h.guards = guards := by
  obtain ⟨p, -, hp⟩ := List.mem_flatMap.1 hh
  cases p with
  | plain a => exact absurd hp List.not_mem_nil
  | directive d => exact guards_of_mem_listenerHandlers (List.mem_ite_nil_right.1 hp).2

/-- A handler of an element has the guards of the element, or is one of what stands in it. -/
theorem guards_of_mem_elementHandlers {e : Element} {hasChildren : Bool} {h : Handler}
    (hh : h ∈ elementHandlers r filled w guards e hasChildren) : h.guards = guards ∨ ∃ w', h ∈ filled w' := by
  have hboth : ∀ {isComponent : Bool} {ps : List Property}, h ∈ entriesHandlers r w guards isComponent ps ++ filled w →
      h.guards = guards ∨ ∃ w', h ∈ filled w' := fun hmem =>
    (List.mem_append.1 hmem).imp guards_of_mem_entriesHandlers fun hinner => ⟨w, hinner⟩
  unfold elementHandlers at hh
  cases hkind : e.kind with
  | slot | native =>
    rw [hkind] at hh
    exact hboth hh
  | component =>
    rw [hkind] at hh
    exact (List.mem_append.1 hh).imp guards_of_mem_componentHandlers fun hinner => ⟨_, (List.mem_ite_nil_right.1 hinner).2⟩
  | template =>
    rw [hkind] at hh
    dsimp only at hh
    split at hh
    · exact .inr ⟨_, hh⟩
    · exact hboth hh

mutual

theorem prefix_of_mem_nodeHandlers {w : Site} {guards : List String} {cs : List (Span × String)} (n : Node) {h : Handler}
    (hh : h ∈ nodeHandlers r w guards cs n) : guards <+: h.guards := by
  cases n with
  | comment | text | interpolation => exact absurd hh List.not_mem_nil
  | element e children =>
    rw [nodeHandlers, List.mem_ite_nil_left] at hh
    rcases guards_of_mem_elementHandlers hh.2 with heq | ⟨w', hinner⟩
    · exact heq ▸ List.prefix_refl _
    · exact prefix_of_mem_nodesHandlers children hinner
  | loop span head children =>
    rw [nodeHandlers, List.mem_ite_nil_left] at hh
    exact prefix_of_mem_nodesHandlers children hh.2
  | chain span bs =>
    rw [nodeHandlers, List.mem_ite_nil_left] at hh
    exact prefix_of_mem_branchesHandlers bs hh.2

/-- Guards are only added on the way down. -/
theorem prefix_of_mem_nodesHandlers {w : Site} {guards : List String} {cs : List (Span × String)} (ns : List Node) {h : Handler}
    (hh : h ∈ nodesHandlers r w guards cs ns) : guards <+: h.guards := by
  cases ns with
  | nil => exact absurd hh List.not_mem_nil
  | cons n ns =>
    rw [nodesHandlers] at hh
    rcases List.mem_append.1 hh with hh | hh
    · exact prefix_of_mem_nodeHandlers n hh
    · exact prefix_of_mem_nodesHandlers ns hh

theorem prefix_of_mem_branchesHandlers {w : Site} {guards : List String} {cs : List (Span × String)} (bs : List Branch) {h : Handler}
    (hh : h ∈ branchesHandlers r w guards cs bs) : guards <+: h.guards := by
  cases bs with
  | nil => exact absurd hh List.not_mem_nil
  | cons b bs =>
    obtain ⟨span, x, children⟩ := b
    rw [branchesHandlers] at hh
    rcases List.mem_append.1 hh with hh | hh
    · exact (List.prefix_append _ _).trans (prefix_of_mem_nodesHandlers children hh)
    · exact (List.prefix_append _ _).trans (prefix_of_mem_branchesHandlers bs hh)

end

end

/-! ## Where a branch begins -/

/-- What a branch writes before its nodes. -/
def branchHead (isFirst : Bool) (x : Option Markup.Expression) : Gen Unit := do
  text (branchWord isFirst x.isSome)
  match x with
  | some x => condition x
  | none => pure ()
  text "\x7b\n"

section

variable {r : Setting} {s : State}

/-- The nodes of a branch are walked behind its head. -/
theorem begins_branch (isFirst : Bool) (x : Option Markup.Expression) : Begins (branch isFirst x) r s ((branchHead isFirst x).after r s).2 := by
  let behind : Gen Unit := do
    text "\x7d\n"
    if x.isSome then modify fun s => { s with guards := negateLast s.guards }
  have hkeeps : Keeps 0 behind := .bind (keeps_text _) fun _ => .ite (fun _ => keeps_modify fun _ => rfl) fun _ => closes_pure ()
  refine ⟨fun u => (behind.after r u).2, fun u => Closes.prolongs hkeeps u, fun inner => ?_⟩
  cases x <;> rfl

/-- The head of a branch writes its condition and makes it a guard. -/
theorem after_branchHead (isFirst : Bool) (x : Option Markup.Expression) (s : State) :
    let t := ((branchHead isFirst x).after r s).2
    t.guards = s.guards ++ x.toList.map (conditionText r s.scopes) ∧ t.scopes = s.scopes ∧
      t.components.length = s.components.length ∧ t.pending = s.pending ∧
      t.code.toText = s.code.toText ++ (branchWord isFirst x.isSome ++ (x.elim "" (conditionText r s.scopes · ++ " ") ++ "\x7b\n")) := by
  intro t
  cases x with
  | none =>
    refine ⟨(List.append_nil _).symm, rfl, rfl, rfl, ?_⟩
    show ((s.code.text _).text _).toText = _
    rw [Code.toText_text, Code.toText_text, String.append_assoc]
    rfl
  | some x =>
    let headed : State := { s with code := s.code.text (branchWord isFirst true) }
    obtain ⟨hbalanced, htext⟩ := balanced_condition (r := r) x headed
    obtain ⟨⟨hscopes, hdepth, hpending⟩, -⟩ := resolves_condition (r := r) x headed headed.at_point
    refine ⟨hbalanced.guards_eq, hscopes, hdepth, hpending _ rfl, ?_⟩
    show (((condition x).after r headed).2.code.text "\x7b\n").toText = _
    rw [Code.toText_text, htext, Code.toText_text, String.append_assoc, String.append_assoc]
    rfl

/-- The guards state the path to a branch. Whatever the state before a chain, the guards behind the chain are what they were before it.
The nodes of a branch begin behind the branches before it and its own head, which writes the text of its condition. Before, between and
behind its nodes the guards are those around the chain, then the negated texts of the conditions before it, and then the text of its own
condition, if it has one.

Under these guards all handlers of its nodes are written, however deep they stand in elements, loops, slots and further chains: the
compound listeners of named events, and the models that are checked as listeners. Each starts with an early return
for each of these guards in order, and then for those that are added by chains within. The listeners of computed events are no handlers.
Each of them is written as its statements between the braces of a function, and no guard comes before them. Nodes that are passed over
write none. -/
theorem guards_of_branch (r : Setting) (s : State) (span own : Span) (before : List Branch) (x : Option Markup.Expression)
    (children : List Node) (after : List Branch) :
    let chain : Node := .chain span (before ++ .mk own x children :: after)
    let guards := s.guards ++ (negations r s.scopes before ++ x.toList.map (conditionText r s.scopes))
    let waiting := (before.flatMap Branch.children).foldl waitBehind s.pending
    let t := ((branches true before).after r s).2
    ((inside chain).after r s).2.guards = s.guards ∧ inside chain = chainAround before x after (nodes children) ∧
      ∃ u, Begins (chainAround before x after) r s u ∧
        u.code.toText = t.code.toText ++ (branchWord before.isEmpty x.isSome ++
          (x.elim "" (conditionText r s.scopes · ++ " ") ++ "\x7b\n")) ∧
        (∀ i, ((nodes (children.take i)).after r u).2.guards = guards) ∧
        ∃ ss, ((nodes children).after r u).2.code.segments = u.code.segments ++ ss ∧
          (∀ h ∈ nodesHandlers r s.point.site guards waiting children, guards <+: h.guards ∧ h.Shows r ss) ∧
          ∀ v ∈ nodesUses r s.point.site waiting children, v.listensComputed = true → ∃ as, v.Makes r as ∧ as <:+: ss := by
  intro chain guards waiting t
  refine ⟨(balances_inside chain r s).guards_eq, (Holds.branch span own before x children after).inside_eq, ?_⟩
  let u := ((branchHead before.isEmpty x).after r t).2
  obtain ⟨hscopes, hdepth⟩ := (leads_branches (r := r) s.point.site s.pending true before).site_eq
  have hbefore : t.guards = s.guards ++ negations r s.scopes before :=
    (balanced_branches true before (balances_children before) s).guards_eq
  obtain ⟨hadded, hscopes', hdepth', hpending, htext⟩ := after_branchHead (r := r) before.isEmpty x t
  rw [hscopes] at hadded hscopes' htext
  have hguards : u.guards = guards := hadded.trans ((congrArg (· ++ _) hbefore).trans (List.append_assoc _ _ _))
  have hat : u.At ⟨s.point.site, some waiting⟩ :=
    ⟨hscopes', hdepth'.trans hdepth, fun _ hcs => (hpending.trans (pending_branches true before)).trans (Option.some.inj hcs)⟩
  refine ⟨u, (begins_branch before.isEmpty x).chainAround after, htext, ?_, ?_⟩
  · intro i
    exact (balances_nodes _ r u).guards_eq.trans hguards
  · obtain ⟨ss, hss, hshown⟩ := handles_nodes s.point.site guards waiting children u hat hguards
    obtain ⟨-, ⟨-, -, ts, hts, hwoven⟩, -⟩ := leads_nodes (r := r) s.point.site waiting children u hat
    obtain rfl : ts = ss := List.append_cancel_left (hts.symm.trans hss)
    exact ⟨ts, hss, fun h hh => ⟨prefix_of_mem_nodesHandlers children hh, hshown h hh⟩, fun v hv _ => hwoven.exists_makes hv⟩

/-- A listener for a computed event, in a branch: its statements are written without an early return, although the condition of the branch
is in force, and a listener of the same statements for a named event has one. -/
theorem not_guarded_of_computed_event :
    let written := fun source =>
      (State.ofTemplate bareSetting source (some (Markup.parseTemplate source).1) {}).code.toText
    isCompound bareSetting.reader "x()" = true ∧
      written "<p v-if=\"a\" @[e]=\"x()\"/>" =
        "if (__VLS_ctx.a) \x7b\n__VLS_asFunctionalElement1(__VLS_intrinsics.p)(\x7b\n\x7d);\n([__VLS_ctx.e]);\n" ++
          "() => \x7b__VLS_ctx.x()\x7d;\n\x7d\ntype __VLS_RootEl =\n| __VLS_Elements[\"p\"];\n" ∧
      written "<p v-if=\"a\" @e=\"x()\"/>" =
        "if (__VLS_ctx.a) \x7b\n__VLS_asFunctionalElement1(__VLS_intrinsics.p)(\x7b\n...\x7bonE: (...[$event]) => \x7b\n" ++
          "if (!(__VLS_ctx.a)) return;\n__VLS_ctx.x();\n\x7d\x7d,\n\x7d);\n\x7d\n" ++
          "type __VLS_RootEl =\n| __VLS_Elements[\"p\"];\n" := by
  decide +kernel

end

end Generate

end TypedSfc
