import TypedSfc.Generate.Style
import TypedSfc.Proofs.Generate.Elements

/-!
# Templates and styles leave groups as they are

The nodes of a template are written one within another; by induction on the tree each leaves the groups that are open around it as they
are. The declarations behind a template and the code of styles do so as well, which makes what they write by themselves grouped.
-/

namespace TypedSfc

namespace Generate

open Markup (Branch Element LoopHead Node)

variable {n : Nat}

/-! ## Nodes -/

theorem keeps_interpolation (x : Markup.Expression) : Keeps n (interpolation x) :=
  .bind keeps_read fun _ => keeps_expression _ _ _ _

/-- A condition is written into a buffer, because its text is needed besides. -/
theorem keeps_condition (x : Markup.Expression) : Keeps n (condition x) :=
  .captured (keeps_expression _ _ _ _) fun _ _ => .bind (keeps_modify fun _ => rfl) fun _ => .append (keeps_text _)

theorem keeps_branch (isFirst : Bool) (x : Option Markup.Expression) {inner : Gen Unit} (hinner : Keeps n inner) :
    Keeps n (branch isFirst x inner) := by
  unfold branch
  extract_lets body
  have hbody : ∀ u, Keeps n (body u) := fun _ =>
    .text (.bind hinner fun _ => .text (.ite (fun _ => keeps_modify fun _ => rfl) fun _ => closes_pure _))
  refine .text ?_
  cases x with
  | some x => exact .bind (keeps_condition x) hbody
  | none => exact hbody ()

theorem keeps_keepingGuards {g : Gen Unit} (hg : Keeps n g) : Keeps n (keepingGuards g) :=
  .bind keeps_get fun _ => .bind hg fun _ => keeps_modify fun _ => rfl

theorem keeps_loopNames (h : LoopHead) : Keeps n (loopNames h) := by
  unfold loopNames
  split
  · exact closes_pure ()
  · exact .bind keeps_read fun _ => .bind (keeps_declare _) fun _ => keeps_mapped _ (template_lt n) _ rfl

theorem keeps_asLoopBody {g : Gen Unit} (hg : Keeps n g) : Keeps n (asLoopBody g) :=
  .bind keeps_get fun _ => .bind (keeps_modify fun _ => rfl) fun _ => .bind hg fun _ => keeps_modify fun _ => rfl

theorem keeps_loop (h : LoopHead) {inner : Gen Unit} (hinner : Keeps n inner) : Keeps n (loop h inner) := by
  refine keeps_inScope (.text (.bind (keeps_loopNames h) fun _ => .text ?_))
  have hbody : Keeps n (text ") \x7b\n" >>= fun _ => asLoopBody inner >>= fun _ => text "\x7d\n") :=
    .text (.bind (keeps_asLoopBody hinner) fun _ => keeps_text _)
  split
  · exact .text (.bind (keeps_expression _ _ _ _) fun _ => .bind (keeps_text _) fun _ => hbody)
  · exact .bind (keeps_text _) fun _ => hbody

theorem keeps_element (e : Element) (hasChildren : Bool) {inner : Gen Unit} (hinner : Keeps n inner) :
    Keeps n (element e hasChildren inner) := by
  unfold element
  split
  · exact keeps_outlet e hinner
  · exact keeps_native e hinner
  · exact keeps_component e hasChildren hinner
  · split
    · exact keeps_group e hinner
    · refine .bind keeps_get fun _ => .ite (fun _ => keeps_group e hinner) fun _ => ?_
      exact .bind keeps_contextVar fun _ => keeps_slotContent _ _ hinner

mutual

/-- A node leaves the groups around it as they are. -/
theorem keeps_node (x : Node) : Keeps n (node x) := by
  cases x with
  | comment span data => exact keeps_keepComment span data
  | text span data => exact keeps_asNode (closes_pure ())
  | interpolation span e => exact keeps_asNode (keeps_interpolation e)
  | element e children => exact keeps_asNode (keeps_element e _ (keeps_nodes children))
  | loop span h children => exact keeps_asNode (keeps_loop h (keeps_nodes children))
  | chain span bs => exact keeps_asNode (keeps_keepingGuards (keeps_branches true bs))

theorem keeps_nodes (xs : List Node) : Keeps n (nodes xs) := by
  cases xs with
  | nil => exact closes_pure ()
  | cons x xs => exact .bind (keeps_node x) fun _ => keeps_nodes xs

theorem keeps_branches (isFirst : Bool) (bs : List Branch) : Keeps n (branches isFirst bs) := by
  cases bs with
  | nil => exact closes_pure ()
  | cons b bs =>
    obtain ⟨span, x, children⟩ := b
    exact .bind (keeps_branch isFirst x (keeps_nodes children)) fun _ => keeps_branches false bs

end

/-! ## Declarations behind a template -/

theorem keeps_hoistedVariables : Keeps n hoistedVariables :=
  .bind keeps_get fun _ => .ite (fun _ => keeps_text _) fun _ => closes_pure ()

theorem keeps_slotPart (o : SlotOutlet) : Keeps n (slotPart o) := by
  unfold slotPart
  extract_lets type
  have htype : ∀ u, Keeps n (type u) := fun _ => keeps_text _
  refine .text ?_
  split
  · exact .ite (fun _ => .bind (keeps_text _) htype) fun _ => .bind (keeps_objectKey _ _ rfl _ _) htype
  · exact .bind (keeps_text _) htype

theorem keeps_slotsType : Keeps n slotsType := by
  refine .bind keeps_get fun _ => .bind keeps_read fun _ => .ite (fun _ => ?_) fun _ => closes_pure ()
  refine .bind (keeps_noteType _) fun _ => .text (.bind (keeps_forIn fun _ _ _ => .text (closes_pure _)) fun _ => ?_)
  exact .bind (keeps_forIn fun o _ _ => .bind (keeps_slotPart o) fun _ => closes_pure _) fun _ => keeps_text _

theorem keeps_inheritedType : Keeps n inheritedType :=
  .bind keeps_get fun _ => .ite (fun _ => .bind (keeps_noteType _) fun _ => keeps_text _) fun _ => closes_pure ()

theorem keeps_refTargets (name : String) (isFirst : Bool) (ts : List RefTarget) : Keeps n (refTargets name isFirst ts) := by
  induction ts generalizing isFirst with
  | nil => exact closes_pure ()
  | cons t ts ih => exact .whenever (keeps_text _) (.text (.bind (keeps_objectKey _ _ rfl _ _) fun _ => .text (ih false)))

theorem keeps_refPart (name : String) (ts : List RefTarget) : Keeps n (refPart name ts) :=
  .text (.whenever (keeps_text _) (.bind (keeps_refTargets name true ts) fun _ => .ite (fun _ => keeps_text _) fun _ => closes_pure ()))

theorem keeps_refsType : Keeps n refsType := by
  refine .bind keeps_get fun _ => .ite (fun _ => ?_) fun _ => closes_pure ()
  refine .bind (keeps_noteType _) fun _ => .text (.bind (keeps_forIn fun r _ _ => ?_) fun _ => keeps_text _)
  exact .bind (keeps_refPart _ _) fun _ => closes_pure _

theorem keeps_rootType : Keeps n rootType := by
  refine .bind keeps_get fun _ => .bind keeps_read fun _ => .ite (fun _ => ?_) fun _ => closes_pure ()
  exact .bind (keeps_noteType _) fun _ => keeps_text _

theorem keeps_dollarMembers : Keeps n dollarMembers :=
  .bind keeps_read fun _ => .bind keeps_get fun _ => .ite (fun _ => keeps_text _) fun _ => closes_pure ()

theorem keeps_template (f : Option Markup.Fragment) : Keeps n (template f) := by
  refine .bind keeps_read fun _ => keeps_inScope (.bind (keeps_declare _) fun _ => ?_)
  extract_lets declarations
  have hdeclarations : ∀ u, Keeps n (declarations u) := fun _ =>
    .bind keeps_hoistedVariables fun _ => .bind keeps_slotsType fun _ => .bind keeps_inheritedType fun _ =>
      .bind keeps_refsType fun _ => .bind keeps_rootType fun _ => keeps_dollarMembers
  cases f with
  | some f => exact .bind (keeps_nodes f.nodes) hdeclarations
  | none => exact hdeclarations ()

/-- The code of a template goes on from a buffer with whole groups. -/
theorem adds_ofTemplate (s : Setting) (source : String) (f : Option Markup.Fragment) (c : Code) :
    Code.Adds (4 + n) [] [] c (State.ofTemplate s source f c).code :=
  keeps_template f (s.withTemplate source f) { code := c }

/-! ## Styles -/

theorem keeps_classPart {source : SourceId} (hs : source < 4 + n) (r : StyleRef) : Keeps n (classPart source r) := by
  unfold classPart
  split
  · exact .text (.bind (keeps_mapped _ hs _ rfl) fun _ => keeps_text _)
  · exact closes_pure ()

theorem keeps_moduleMember {s : StyleBlock × Nat} (hs : s.2 < n) : Keeps n (moduleMember s) := by
  have hsource : SourceId.style s.2 < 4 + n := Nat.add_lt_add_left hs 4
  unfold moduleMember
  split
  · exact closes_pure ()
  · refine .text (.bind keeps_read fun _ => .whenever (keeps_text _) (.text ?_))
    exact .bind (keeps_forM fun r _ => keeps_classPart hsource r) fun _ => keeps_text _

theorem keeps_styleBindings {s : StyleBlock × Nat} (hs : s.2 < n) : Keeps n (styleBindings s) := by
  have hsource : SourceId.style s.2 < 4 + n := Nat.add_lt_add_left hs 4
  exact keeps_forM fun b _ => .bind (plain_expressionIn hsource _ _ rfl _ _).keeps fun _ => keeps_text _

/-- The styles of a document are numbered below their count. -/
theorem keeps_styles (ss : List StyleBlock) : Keeps ss.length (styles ss) := by
  have hlt : ∀ s ∈ ss.zipIdx, s.2 < ss.length := by
    intro s hs
    exact (List.getElem?_eq_some_iff.1 (List.mem_zipIdx_iff_getElem?.1 hs)).1
  have hmodules : Keeps ss.length (moduleTypes ss) := by
    refine .ite (fun _ => ?_) fun _ => closes_pure ()
    exact .bind (keeps_noteType _) fun _ => .text (.bind (keeps_forM fun s hs => keeps_moduleMember (hlt s hs)) fun _ => keeps_text _)
  refine .bind keeps_read fun _ => keeps_inScope (.bind (keeps_declare _) fun _ => .bind hmodules fun _ => ?_)
  exact keeps_forM fun s hs => keeps_styleBindings (hlt s hs)

/-- The code of styles goes on from a buffer with whole groups. -/
theorem adds_ofStyles (s : Setting) (ss : List StyleBlock) (c : Code) :
    Code.Adds (4 + ss.length) [] [] c (State.ofStyles s ss c).code :=
  keeps_styles ss s { code := c }

end Generate

end TypedSfc
