import TypedSfc.Generate.Template
import TypedSfc.Proofs.Generate.PermittedNodes

/-!
# What templates map

The declarations behind the nodes of a template map the names that were noted on the way, so they are written as steps within one node;
a template is written around its nodes.
-/

namespace TypedSfc

namespace Generate

variable {P : Permit} {r : Setting} {e : Option Effect}

/-! ## Declarations behind the nodes -/

theorem puts_hoistedVariables : Puts P r e hoistedVariables :=
  .andThen gives_get.puts fun _ => .ite (fun _ => puts_text _) fun _ => puts_pure ()

theorem puts_inheritedType : Puts P r e inheritedType :=
  .andThen gives_get.puts fun _ => .ite (fun _ => .andThen (puts_noteType _) fun _ => puts_text _) fun _ => puts_pure ()

theorem puts_rootType : Puts P r e rootType := by
  refine .andThen gives_get.puts fun _ => .andThen gives_read.puts fun _ => .ite (fun _ => ?_) fun _ => puts_pure ()
  exact .andThen (puts_noteType _) fun _ => puts_text _

theorem puts_dollarMembers : Puts P r e dollarMembers :=
  .andThen gives_read.puts fun _ => .andThen gives_get.puts fun _ => .ite (fun _ => puts_text _) fun _ => puts_pure ()

section

variable (hP : P.Lawful r)

include hP

theorem puts_slotPart {o : SlotOutlet} (h : ∀ offset ∈ o.offset, P.stands SourceId.template o.name offset) :
    Puts P r e (slotPart o) := by
  unfold slotPart
  extract_lets type
  have htype : ∀ u, Puts P r e (type u) := fun _ => puts_text _
  refine .text ?_
  split
  · rename_i offset hoffset
    exact .ite (fun _ => .andThen (puts_text _) htype) fun _ => .andThen (puts_objectKey hP (h offset hoffset) rfl _ _) htype
  · exact .andThen (puts_text _) htype

theorem puts_slotsType : Puts P r e slotsType := by
  refine .bind gives_get fun s hs => .andThen gives_read.puts fun _ => .ite (fun _ => ?_) fun _ => puts_pure ()
  refine .andThen (puts_noteType _) fun _ => .text (.andThen (puts_forIn fun _ _ _ => .text (puts_pure _)) fun _ => ?_)
  refine .andThen (puts_forIn fun o ho _ => ?_) fun _ => puts_text _
  exact .andThen (puts_slotPart hP (hs.slots_stand o ho)) fun _ => puts_pure _

theorem puts_refTargets {name : String} (isFirst : Bool) {ts : List RefTarget}
    (h : ∀ t ∈ ts, P.stands SourceId.template name t.offset) : Puts P r e (refTargets name isFirst ts) := by
  induction ts generalizing isFirst with
  | nil => exact puts_pure ()
  | cons t ts ih =>
    refine Puts.whenever (puts_text _) (.text (.andThen (puts_objectKey hP (h t List.mem_cons_self) rfl _ _) fun _ => .text ?_))
    exact ih false fun t' ht' => h t' (List.mem_cons_of_mem t ht')

theorem puts_refPart {name : String} {ts : List RefTarget} (h : ∀ t ∈ ts, P.stands SourceId.template name t.offset) :
    Puts P r e (refPart name ts) :=
  .text (Puts.whenever (puts_text _) (.andThen (puts_refTargets hP true h) fun _ => .ite (fun _ => puts_text _) fun _ => puts_pure ()))

theorem puts_refsType : Puts P r e refsType := by
  refine .bind gives_get fun s hs => .ite (fun _ => ?_) fun _ => puts_pure ()
  refine .andThen (puts_noteType _) fun _ => .text (.andThen (puts_forIn fun x hx _ => ?_) fun _ => puts_text _)
  exact .andThen (puts_refPart hP (hs.refs_stand x hx)) fun _ => puts_pure _

/-! ## Templates -/

/-- A template around its nodes. -/
def templateAround (inner : Gen Unit) : Gen Unit := do
  let setting ← read
  inScope do
    declare (setting.setupConsts ++ setting.propsName.toList ++ setting.slotsName.toList)
    inner
    hoistedVariables
    slotsType
    inheritedType
    refsType
    rootType
    dollarMembers

omit hP in
theorem template_eq (f : Markup.Fragment) : template (some f) = templateAround (nodes f.nodes) := rfl

omit hP in
theorem template_none : template none = templateAround (pure ()) := by
  simp only [template, templateAround, pure_bind]

theorem surrounds_templateAround : Surrounds P r e templateAround := by
  refine .andThen gives_read.puts fun setting => surrounds_inScope (.andThen (puts_declare _) fun _ => ?_)
  refine .before surrounds_inner fun _ _ => .andThen puts_hoistedVariables fun _ => .andThen (puts_slotsType hP) fun _ => ?_
  refine .andThen puts_inheritedType fun _ => .andThen (puts_refsType hP) fun _ => ?_
  exact .andThen puts_rootType fun _ => puts_dollarMembers

/-- A template all of whose nodes may be mapped, with its declarations. -/
theorem grown_template {f : Option Markup.Fragment} (h : ∀ y ∈ f, ∀ n ∈ y.nodes, NodePermitted P r.source n) :
    Grown P r (template f) := by
  cases f with
  | none =>
    rw [template_none]
    exact grown_of_puts fun _ => (surrounds_templateAround hP).puts (puts_pure ())
  | some f =>
    rw [template_eq]
    exact Surrounds.grown (fun _ => surrounds_templateAround hP) (grown_nodes hP f.nodes (h f rfl))

end

end Generate

end TypedSfc
