import TypedSfc.Proofs.Generate.ResolvedElements

/-!
# Names are resolved by scope

What a template writes and what it notes is told from its tree: each expression is written as its free names are resolved in the scopes
around it, and the members that are read are noted in order. The induction is on the tree. Its invariant is that the scopes of the state
are those passed down to the node, and that the comments that wait are those before it.
-/

namespace TypedSfc

namespace Generate

open Markup (Branch Element Fragment LoopHead Node)

section

variable {r : Setting} {w : Site} {inner : Gen Unit} {uses : Site → List Use}

/-! ## Nodes that are passed over -/

/-- Comments make no frame if and only if one of them says that the next node is to be passed over. -/
theorem isNone_frameOf (next : Nat) (x : Frame) (cs : List (Span × String)) : (frameOf next x cs).2.isNone = skips cs := by
  induction cs generalizing next x with
  | nil => rfl
  | cons c cs ih =>
    obtain ⟨span, data⟩ := c
    rw [skips, List.any_cons, frameOf.eq_2]
    cases directiveComment? data with
    | none => exact ih next x
    | some d =>
      obtain ⟨name, content⟩ := d
      by_cases hskip : name = "skip"
      · subst hskip
        rfl
      · have hname : (name == "skip") = false := beq_eq_false_iff_ne.2 hskip
        rw [Option.any_some, hname, Bool.false_or]
        dsimp only
        split
        · contradiction
        all_goals exact ih _ _

/-- Entering a node takes the comments that wait, and answers whether the node is not to be passed over. -/
theorem leads_enter (cs : List (Span × String)) :
    Leads r ⟨w, some cs⟩ [] enter [] ⟨w, some []⟩ fun entered => entered = !skips cs := by
  rintro s ⟨hscopes, hdepth, hwaiting⟩
  have htaken : (frameOf s.nextExpectation {} s.pending).2.isNone = skips cs := by
    rw [hwaiting cs rfl, isNone_frameOf]
  have hwaits : ∀ cs' ∈ some ([] : List (Span × String)), [] = cs' := fun _ hcs => Option.some.inj hcs
  rw [after_enter]
  dsimp only
  cases hframe : (frameOf s.nextExpectation {} s.pending).2 with
  | none =>
    rw [hframe] at htaken
    exact ⟨⟨hscopes, hdepth, hwaits⟩, ⟨rfl, rfl, [], (List.append_nil _).symm, .nil⟩, by rw [← htaken]; rfl⟩
  | some f =>
    rw [hframe] at htaken
    exact ⟨⟨hscopes, hdepth, hwaits⟩, ⟨rfl, rfl, [], (List.append_nil _).symm, .nil⟩, by rw [← htaken]; rfl⟩

/-- Leaving a node drops the comments that wait. -/
theorem leads_leave {cs : Option (List (Span × String))} : Leads r ⟨w, cs⟩ [] leave [] ⟨w, some []⟩ fun _ => True := by
  rintro s ⟨hscopes, hdepth, -⟩
  have hat : (State.withFrames { s with pending := [] } s.frames.tail).At ⟨w, some []⟩ :=
    ⟨hscopes, hdepth, fun _ hcs => Option.some.inj hcs⟩
  rw [leave, after_get_bind]
  cases s.frames.head?.bind (·.expects) with
  | none => exact ⟨hat, ⟨rfl, rfl, [], (List.append_nil _).symm, .nil⟩, trivial⟩
  | some x =>
    have hmarker := (Quiet.bind (quiet_bounded (r := r) x.span.start x.span.stop (Info.ofPolicy (.unused x.number none))
      "// @ts-expect-error") fun _ => quiet_text "\n;\n").resolves (State.withFrames { s with pending := [] } s.frames.tail) hat
    exact ⟨hmarker.1, ⟨hmarker.2.1.accessed_eq, hmarker.2.1.isCut_eq, hmarker.2.1.woven⟩, trivial⟩

/-- A node that is passed over makes no uses. -/
theorem leads_asNode {cs : List (Span × String)} {g : Gen Unit} {us : List Use}
    (hg : Leads r ⟨w, some []⟩ [] g us ⟨w, none⟩ fun _ => True) :
    Leads r ⟨w, some cs⟩ [] (asNode g) (if skips cs then [] else us) ⟨w, some []⟩ fun _ => True := by
  refine .idle (leads_enter cs) fun entered hentered => ?_
  rw [hentered]
  cases skips cs with
  | true => exact leads_pure trivial
  | false => exact hg.ending fun _ _ => leads_leave

/-! ## Chains -/

theorem resolves_interpolation {cs : Option (List (Span × String))} (x : Markup.Expression) :
    Resolves r ⟨w, cs⟩ (interpolation x) [interpolationUse r w x] := .read (resolves_expression _ _ _ _)

theorem resolves_condition {cs : Option (List (Span × String))} (x : Markup.Expression) :
    Resolves r ⟨w, cs⟩ (condition x) [w.expression x.content x.offset "(" ")"] := by
  refine .capturedOnly (resolves_expression _ _ _ _).catches fun code _ hcode _ => ?_
  exact .quiet (quiet_of_same fun _ => ⟨rfl, rfl, rfl, rfl, rfl, rfl⟩) fun _ => .append hcode (quiet_text _).resolves

theorem leads_branch {cs : List (Span × String)} {cs' : Option (List (Span × String))} {us : List Use} (isFirst : Bool)
    (x : Option Markup.Expression) (hinner : Leads r ⟨w, some cs⟩ [] inner us ⟨w, cs'⟩ fun _ => True) :
    Leads r ⟨w, some cs⟩ [] (branch isFirst x inner) ((x.toList.map fun x => w.expression x.content x.offset "(" ")") ++ us)
      ⟨w, cs'⟩ fun _ => True := by
  have hbody : ∀ guards : List String → List String, Leads r ⟨w, some cs⟩ [] (do
      text "\x7b\n"
      inner
      text "\x7d\n"
      if x.isSome then modify fun s => { s with guards := guards s.guards }) us ⟨w, cs'⟩ fun _ => True := by
    refine fun guards => .text (.before hinner fun _ => .bind (quiet_text _) fun _ => .ite ?_ (quiet_pure ()))
    exact quiet_of_same fun _ => ⟨rfl, rfl, rfl, rfl, rfl, rfl⟩
  unfold branch
  refine .text ?_
  cases x with
  | none => exact hbody negateLast
  | some x => exact (resolves_condition x).bind fun _ _ => hbody negateLast

theorem leads_keepingGuards {a b : Point} {g : Gen Unit} {us : List Use} (hg : Leads r a [] g us b fun _ => True) :
    Leads r a [] (keepingGuards g) us b fun _ => True :=
  .get fun _ _ => .before hg fun _ => quiet_of_same fun _ => ⟨rfl, rfl, rfl, rfl, rfl, rfl⟩

/-! ## Loops -/

theorem leads_loopNames {cs : Option (List (Span × String))} (h : LoopHead) :
    Leads r ⟨w.within [], cs⟩ [] (loopNames h) [] ⟨w.within (loopNamesOf r h), cs⟩ fun _ => True := by
  unfold loopNames loopNamesOf
  cases h.aliasSpan with
  | none => exact leads_pure trivial
  | some span =>
    exact .read (.before (leads_declare _) fun _ => quiet_mapped _ _ _ _)

theorem leads_asLoopBody {a b : Point} {g : Gen Unit} {us : List Use} (hg : Leads r a [] g us b fun _ => True) :
    Leads r a [] (asLoopBody g) us b fun _ => True := by
  refine .get fun s _ => .quiet (quiet_of_same fun _ => ⟨rfl, rfl, rfl, rfl, rfl, rfl⟩) fun _ => ?_
  exact .before hg fun _ => quiet_of_same fun _ => ⟨rfl, rfl, rfl, rfl, rfl, rfl⟩

/-- What a loop runs over is written behind the declaration of its names, and before what stands in it. -/
theorem leads_loop (hinner : Fills r inner uses) (h : LoopHead) :
    let own := w.within (loopNamesOf r h)
    Leads r ⟨w, some []⟩ [] (loop h inner) ((h.source.toList.map fun x => own.expression x.content x.offset "(" ")") ++ uses own)
      ⟨w, none⟩ fun _ => True := by
  intro own
  have hbody : Leads r ⟨own, some []⟩ [] (text ") \x7b\n" >>= fun _ => asLoopBody inner >>= fun _ => text "\x7d\n") (uses own)
      ⟨own, none⟩ fun _ => True := .text (.before (leads_asLoopBody (hinner own)) fun _ => quiet_text _)
  -- All that is written behind the names is written in their scope.
  have hnamed : ∀ {g : Gen Unit} {us : List Use}, Leads r ⟨own, some []⟩ [] g us ⟨own, none⟩ (fun _ => True) →
      Leads r ⟨w, some []⟩ [] (inScope (text "for (const [" >>= fun _ => loopNames h >>= fun _ => text "] of " >>= fun _ => g)) us
        ⟨w, none⟩ fun _ => True := fun hg =>
    .inScope (.text (.idle (leads_loopNames h) fun _ _ => .text hg))
  refine hnamed ?_
  cases h.source with
  | none => exact .text hbody
  | some x => exact .text (.bind (resolves_expression _ _ _ _) fun _ _ => .text hbody)

/-! ## All nodes -/

theorem leads_element (hinner : Fills r inner uses) (e : Element) (hasChildren : Bool) :
    Leads r ⟨w, some []⟩ [] (element e hasChildren inner) (elementUses r uses w e hasChildren) ⟨w, none⟩ fun _ => True := by
  unfold element elementUses
  cases e.kind with
  | slot => exact leads_outlet hinner e
  | native => exact leads_native hinner e
  | component => exact leads_component hinner e hasChildren
  | template =>
    dsimp only
    cases e.directive "slot" with
    | none => exact leads_group hinner e
    | some d =>
      refine .get fun s hs => ?_
      dsimp only
      by_cases hdepth : w.depth = 0
      · have hempty : s.components.isEmpty = true := List.isEmpty_iff_length_eq_zero.2 (hs.2.1.trans hdepth)
        rw [if_pos hempty, if_pos hdepth]
        exact leads_group hinner e
      · have hempty : ¬s.components.isEmpty = true := fun h => hdepth (hs.2.1.symm.trans (List.isEmpty_iff_length_eq_zero.1 h))
        rw [if_neg hempty, if_neg hdepth]
        exact .quiet (quiet_ofComponent _ _) fun _ => leads_slotContent hinner (some d) _

mutual

theorem leads_node (w : Site) (cs : List (Span × String)) (n : Node) :
    Leads r ⟨w, some cs⟩ [] (node n) (nodeUses r w cs n) ⟨w, some (waitBehind cs n)⟩ fun _ => True := by
  cases n with
  | comment span data =>
    rintro s ⟨hscopes, hdepth, hwaiting⟩
    refine ⟨⟨hscopes, hdepth, fun cs' hcs => ?_⟩, ⟨rfl, rfl, [], (List.append_nil _).symm, .nil⟩, trivial⟩
    rw [← Option.some.inj hcs, ← hwaiting cs rfl]
    rfl
  | text span data =>
    have hnone : Leads r ⟨w, some cs⟩ [] (asNode (pure ())) (if skips cs then [] else []) ⟨w, some []⟩ fun _ => True :=
      leads_asNode (leads_pure trivial).unsettled
    rwa [ite_self] at hnone
  | interpolation span x => exact leads_asNode (resolves_interpolation x).unsettled
  | element e children => exact leads_asNode (leads_element (fun w => (leads_nodes w [] children).unsettled) e _)
  | loop span h children => exact leads_asNode (leads_loop (fun w => (leads_nodes w [] children).unsettled) h)
  | chain span bs => exact leads_asNode (leads_keepingGuards (leads_branches w [] true bs))

theorem leads_nodes (w : Site) (cs : List (Span × String)) (ns : List Node) :
    Leads r ⟨w, some cs⟩ [] (nodes ns) (nodesUses r w cs ns) ⟨w, some (ns.foldl waitBehind cs)⟩ fun _ => True := by
  cases ns with
  | nil => exact leads_pure trivial
  | cons n ns => exact (leads_node w cs n).bind fun _ _ => leads_nodes w (waitBehind cs n) ns

theorem leads_branches (w : Site) (cs : List (Span × String)) (isFirst : Bool) (bs : List Branch) :
    Leads r ⟨w, some cs⟩ [] (branches isFirst bs) (branchesUses r w cs bs) ⟨w, none⟩ fun _ => True := by
  cases bs with
  | nil => exact (leads_pure trivial).unsettled
  | cons b bs =>
    obtain ⟨span, x, children⟩ := b
    have hbranch := leads_branch isFirst x (leads_nodes w cs children)
    rw [branchesUses, ← List.append_assoc]
    exact hbranch.bind fun _ _ => leads_branches w _ false bs

end

end

/-! ## Declarations behind the nodes -/

/-- A generator writes declarations: what reads names in it are keys that stand outside all nodes. -/
def Declares (r : Setting) (g : Gen Unit) : Prop :=
  ∀ s : State, s.At ⟨.root r, none⟩ → ∃ us : List Use, (∀ u ∈ us, DeclaredKey r u) ∧ (g.after r s).2.At ⟨.root r, none⟩ ∧
    Told r [] us s (g.after r s).2

section

variable {r : Setting}

theorem Declares.bind {g : Gen Unit} {k : Unit → Gen Unit} (hg : Declares r g) (hk : Declares r (k ())) : Declares r (g >>= k) := by
  intro s hs
  obtain ⟨us, hus, ht, htold⟩ := hg s hs
  obtain ⟨vs, hvs, hu, htold'⟩ := hk (g.after r s).2 ht
  refine ⟨us ++ vs, ?_, hu, htold.trans htold'⟩
  intro u hmem
  rcases List.mem_append.1 hmem with hmem | hmem
  · exact hus u hmem
  · exact hvs u hmem

theorem Quiet.declares {g : Gen Unit} (hg : Quiet r g) : Declares r g := fun s hs => ⟨[], by simp, hg.at hs, hg.told s⟩

/-- A generator that reads nothing, and then the rest. -/
theorem Declares.quiet {α : Type} {g : Gen α} {k : α → Gen Unit} (hg : Quiet r g) (hk : ∀ x, Declares r (k x)) :
    Declares r (g >>= k) := by
  intro s hs
  obtain ⟨us, hus, ht, htold⟩ := hk (g.after r s).1 (g.after r s).2 (hg.at hs)
  exact ⟨us, hus, ht, (hg.told s).trans htold⟩

theorem Declares.ite {c : Prop} [Decidable c] {g g' : Gen Unit} (h : Declares r g) (h' : Declares r g') :
    Declares r (if c then g else g') := by
  split
  · exact h
  · exact h'

theorem declares_forIn {α : Type} {l : List α} {f : α → Gen Unit} (h : ∀ x ∈ l, Declares r (f x)) :
    Declares r (forIn l PUnit.unit fun x _ => f x >>= fun _ => pure (ForInStep.yield PUnit.unit)) := by
  induction l with
  | nil => exact (quiet_pure _).declares
  | cons x l ih =>
    rw [List.forIn_cons, bind_assoc]
    refine .bind (h x List.mem_cons_self) ?_
    rw [pure_bind]
    exact ih fun y hy => h y (List.mem_cons_of_mem _ hy)

theorem declares_objectKey (name : String) (offset : Nat) : Declares r (objectKey name offset Info.silent false false) := by
  intro s hs
  obtain ⟨ht, htold, -⟩ := resolves_objectKey (r := r) name offset Info.silent false false s hs
  exact ⟨_, fun u hu => ⟨name, offset, hu⟩, ht, htold⟩

theorem quiet_hoistedVariables : Quiet r hoistedVariables :=
  .bind quiet_get fun _ => .ite (quiet_text _) (quiet_pure ())

theorem quiet_inheritedType : Quiet r inheritedType :=
  .bind quiet_get fun _ => .ite (.bind (quiet_noteType _) fun _ => quiet_text _) (quiet_pure ())

theorem quiet_rootType : Quiet r rootType :=
  .bind quiet_get fun _ => .bind quiet_read fun _ => .ite (.bind (quiet_noteType _) fun _ => quiet_text _) (quiet_pure ())

theorem quiet_dollarMembers : Quiet r dollarMembers :=
  .bind quiet_read fun _ => .bind quiet_get fun _ => .ite (quiet_text _) (quiet_pure ())

theorem declares_slotPart (o : SlotOutlet) : Declares r (slotPart o) := by
  unfold slotPart
  extract_lets type
  have htype : ∀ u, Declares r (type u) := fun _ => (quiet_text _).declares
  refine .quiet (quiet_text _) fun _ => ?_
  cases o.offset with
  | none => exact .quiet (quiet_text _) htype
  | some offset => exact .ite (.quiet (quiet_text _) htype) (.bind (declares_objectKey _ _) (htype ()))

theorem declares_slotsType : Declares r slotsType := by
  refine .quiet quiet_get fun s => .quiet quiet_read fun _ => .ite ?_ (quiet_pure ()).declares
  refine .quiet (quiet_noteType _) fun _ => .quiet (quiet_text _) fun _ => .quiet (quiet_forIn fun _ _ _ => ?_) fun _ => ?_
  · exact .bind (quiet_text _) fun _ => quiet_pure _
  · exact .bind (declares_forIn fun o _ => declares_slotPart o) (quiet_text _).declares

theorem declares_refTargets (name : String) (isFirst : Bool) (ts : List RefTarget) : Declares r (refTargets name isFirst ts) := by
  induction ts generalizing isFirst with
  | nil => exact (quiet_pure ()).declares
  | cons t ts ih =>
    unfold refTargets
    extract_lets target
    have htarget : ∀ u, Declares r (target u) := by
      refine fun _ => .quiet (quiet_text _) fun _ => .bind (declares_objectKey _ _) (.quiet (quiet_text _) fun _ => ih false)
    exact .ite (.quiet (quiet_text _) htarget) (htarget ())

theorem declares_refPart (name : String) (ts : List RefTarget) : Declares r (refPart name ts) := by
  unfold refPart
  extract_lets grouped targets
  have htargets : ∀ u, Declares r (targets u) := fun _ =>
    .bind (declares_refTargets name true ts) (.ite (quiet_text _).declares (quiet_pure ()).declares)
  exact .quiet (quiet_text _) fun _ => .ite (.quiet (quiet_text _) htargets) (htargets ())

theorem declares_refsType : Declares r refsType := by
  refine .quiet quiet_get fun s => .ite ?_ (quiet_pure ()).declares
  refine .quiet (quiet_noteType _) fun _ => .quiet (quiet_text _) fun _ => ?_
  exact .bind (declares_forIn fun x _ => declares_refPart x.1 x.2) (quiet_text _).declares

theorem declares_declarations : Declares r (do
    hoistedVariables
    slotsType
    inheritedType
    refsType
    rootType
    dollarMembers) := by
  refine .quiet quiet_hoistedVariables fun _ => .bind declares_slotsType (.quiet quiet_inheritedType fun _ => ?_)
  exact .bind declares_refsType (.quiet quiet_rootType fun _ => quiet_dollarMembers.declares)

end

/-! ## Templates -/

/-- A template is written from its outermost site on, and its declarations behind it. -/
theorem told_templateAround {r : Setting} {inner : Gen Unit} {us : List Use}
    (hinner : Leads r ⟨.root r, some []⟩ [] inner us ⟨.root r, none⟩ fun _ => True) (code : Code) :
    ∃ keys : List Use, (∀ u ∈ keys, DeclaredKey r u) ∧
      Told r [] (us ++ keys) { code := code } ((templateAround inner).after r { code := code }).2 := by
  have hbegun : ({ code := code, scopes := [[]] } : State).At ⟨(⟨[], 0⟩ : Site).within [], some []⟩ :=
    ⟨rfl, rfl, fun _ hcs => Option.some.inj hcs⟩
  obtain ⟨hat, htold, -⟩ := Leads.declared (k := fun _ => inner) hinner _ hbegun
  obtain ⟨keys, hkeys, -, htold'⟩ := declares_declarations _ hat
  have hboth := htold.trans htold'
  exact ⟨keys, hkeys, hboth.accessed_eq, hboth.isCut_eq, hboth.woven⟩

/-- Whatever a template is, it writes the uses of its nodes and behind them those of the keys that it declares. -/
theorem told_template (s : Setting) (source : String) (f : Option Fragment) (code : Code) :
    let r := s.withTemplate source f
    ∃ keys : List Use, (∀ u ∈ keys, DeclaredKey r u) ∧
      Told r [] (templateUses r f ++ keys) { code := code } (State.ofTemplate s source f code) := by
  intro r
  show ∃ keys : List Use, (∀ u ∈ keys, DeclaredKey r u) ∧
    Told r [] (templateUses r f ++ keys) { code := code } ((template f).after r { code := code }).2
  cases f with
  | none =>
    rw [template_none]
    exact told_templateAround (leads_pure trivial).unsettled code
  | some f =>
    rw [template_eq, templateUses, Option.toList_some, List.flatMap_singleton]
    exact told_templateAround (leads_nodes (.root r) [] f.nodes).unsettled code

/-- Whatever a template is, it writes the uses of its nodes, each as it is resolved in the scopes around it, and behind them those of the
keys that it declares; the members that are noted are those that the uses read, in order. -/
theorem uses_resolved_by_scope (s : Setting) (source : String) (f : Option Fragment) (code : Code) :
    let r := s.withTemplate source f
    let t := State.ofTemplate s source f code
    ∃ keys : List Use, (∀ u ∈ keys, DeclaredKey r u) ∧
      (∃ ss, t.code.segments = code.segments ++ ss ∧ Woven r (templateUses r f ++ keys) ss) ∧
        t.accessed = addReads [] ((templateUses r f ++ keys).flatMap (·.reads r)) := by
  intro r t
  obtain ⟨keys, hkeys, htold⟩ := told_template s source f code
  exact ⟨keys, hkeys, htold.woven, htold.accessed_eq⟩

/-! ## Styles -/

theorem quiet_classPart {r : Setting} (source : SourceId) (x : StyleRef) : Quiet r (classPart source x) := by
  unfold classPart
  split
  · exact .bind (quiet_text _) fun _ => .bind (quiet_mapped _ _ _ _) fun _ => quiet_text _
  · exact quiet_pure ()

theorem quiet_moduleMember {r : Setting} (s : StyleBlock × Nat) : Quiet r (moduleMember s) := by
  unfold moduleMember
  split
  · exact quiet_pure ()
  · refine .bind (quiet_text _) fun _ => .bind quiet_read fun _ => .whenever (quiet_text _) ?_
    exact .bind (quiet_text _) fun _ => .bind (quiet_forM fun x _ => quiet_classPart _ x) fun _ => quiet_text _

theorem quiet_moduleTypes {r : Setting} (ss : List StyleBlock) : Quiet r (moduleTypes ss) :=
  .ite (.bind (quiet_noteType _) fun _ => .bind (quiet_text _) fun _ => .bind (quiet_forM fun s _ => quiet_moduleMember s)
    fun _ => quiet_text _) (quiet_pure ())

/-- Styles are written with the uses of the values that they are bound to. -/
theorem told_styles (r : Setting) (ss : List StyleBlock) (code : Code) :
    Told r [] (stylesUses r ss) { code := code } (State.ofStyles r ss code) := by
  have hroot : ({ code := code } : State).At ⟨(⟨[], 0⟩ : Site), none⟩ := ⟨rfl, rfl, fun _ hcs => (by cases hcs)⟩
  have hbindings : ∀ s : StyleBlock × Nat, Resolves r ⟨(⟨[], 0⟩ : Site).within r.setupConsts, none⟩ (styleBindings s)
      (s.1.bindings.map fun b => ⟨.expression (SourceId.style s.2) b.text b.offset Info.checked "(" ")", [r.setupConsts]⟩) := by
    intro s
    rw [List.map_eq_flatMap]
    exact resolves_forM fun b _ => .before (resolves_expressionIn _ _ _ _ _ _) fun _ => quiet_text _
  have hinner : Resolves r ⟨(⟨[], 0⟩ : Site).within r.setupConsts, none⟩
      (moduleTypes ss >>= fun _ => ss.zipIdx.forM styleBindings) (stylesUses r ss) :=
    .quiet (quiet_moduleTypes ss) fun _ => resolves_forM fun s _ => hbindings s
  have hstyles : Resolves r ⟨(⟨[], 0⟩ : Site), none⟩ (styles ss) (stylesUses r ss) := .read (.inScope (.declared hinner))
  exact (hstyles _ hroot).2.1

/-! ## Loops -/

/-- A loop resolves what it runs over as the scopes around it do if and only if each free name of that which the loop declares stays as
it is in the scopes around it. -/
theorem unresolved_within_iff (r : Setting) (scopes : List (List String)) (names : List String) (front code back : String) :
    unresolved r (names :: scopes) front code back = unresolved r scopes front code back ↔
      ∀ n ∈ namesIn r.reader front code back, n.name ∈ names → keptIn scopes n.name = true := by
  have hkept : ∀ name, keptIn (names :: scopes) name = (names.contains name || keptIn scopes name) := by
    intro name
    simp only [keptIn, List.any_cons, Bool.or_assoc]
  constructor
  · intro heq n hn hdeclared
    by_contra hread
    have hmem : n ∈ unresolved r scopes front code back := List.mem_filter.2 ⟨hn, by simpa using hread⟩
    rw [← heq, unresolved, List.mem_filter, hkept, List.contains_iff_mem.2 hdeclared] at hmem
    exact absurd hmem.2 (by simp)
  · intro h
    refine List.filter_congr fun n hn => ?_
    rw [hkept]
    by_cases hdeclared : n.name ∈ names
    · rw [h n hn hdeclared, Bool.or_true]
    · rw [Bool.eq_false_iff.2 (mt List.contains_iff_mem.1 hdeclared), Bool.false_or]

/-- What the only loop of some nodes runs over. -/
def loopSource? : List Node → Option Markup.Expression
  | [.loop _ h _] => h.source
  | _ => none

/-- A loop over something of the name that it declares. In the scopes around the loop the name is that of a member of the component, but
no member is read, and the name stands as it is. -/
theorem not_read_outside_loop :
    let source := "<li v-for=\"item in item.children\">\x7b\x7b item \x7d\x7d</li>"
    let f := (Markup.parseTemplate source).1
    let r := bareSetting.withTemplate source (some f)
    let t := State.ofTemplate bareSetting source (some f) {}
    (loopSource? f.nodes).map (fun x => ((Site.root r).expression x.content x.offset "(" ")").reads r) = some ["item"] ∧
      t.accessed = [] ∧ t.code.toText = "for (const [item] of __VLS_vFor((item.children)!)) \x7b\n" ++
        "__VLS_asFunctionalElement1(__VLS_intrinsics.li, __VLS_intrinsics.li)(\x7b\n\x7d);\n( item );\n\x7d\n" := by
  decide +kernel

end Generate

end TypedSfc
