import TypedSfc.Proofs.Markup.Trimming

/-!
# Siblings of a chain

Whether an element is a branch is told by its directives and by whether a chain stands open before it; and a chain that stands open goes
on if the next element among what is behind it does, white space and comments aside. So what folding does at an element is known from the
element alone, with the directives that it takes.
-/

namespace TypedSfc

namespace Markup

namespace Element

/-- Whether an element goes on with a chain that stands open before it. -/
def goesOn (e : Element) : Bool := !e.isSlotTemplate && ((e.directive "else-if").isSome || (e.directive "else").isSome)

/-- The directive by which an element goes on with a chain. -/
def elseName (e : Element) : String := if (e.directive "else-if").isSome then "else-if" else "else"

/-- The condition of an element that goes on with a chain. -/
def elseCondition (e : Element) : Option Expression := (e.directive "else-if").bind (·.exp)

/-- Whether an element starts a chain, unless it goes on with one. -/
def starts (e : Element) : Bool := !e.isSlotTemplate && (e.directive "if").isSome

/-- The condition of an element that starts a chain. -/
def ifCondition (e : Element) : Option Expression := (e.directive "if").bind (·.exp)

/-- Whether an element is a branch; `chained` tells whether a chain stands open before it. -/
def isBranch (chained : Bool) (e : Element) : Bool := (chained && e.goesOn) || e.starts

/-- The faults of the directives that would go on with a chain if one stood open. -/
def elses (e : Element) : List ParseError :=
  ["else-if", "else"].filterMap fun name => (e.directive name).map fun d => ⟨.missingIf name, d.span⟩

end Element

/-- Whether a chain stands open behind a node. -/
def Node.chains (chained : Bool) : Node → Bool
  | .text _ data => chained && Text.isBlank data.toList
  | .comment .. => chained
  | .element e _ => e.isBranch chained
  | _ => false

/-- Whether these siblings go on with a chain that stands open before them: white space and comments do not matter. -/
def goOn : List Node → Bool
  | [] => false
  | .text _ data :: ns => Text.isBlank data.toList && goOn ns
  | .comment .. :: ns => goOn ns
  | .element e _ :: _ => e.goesOn
  | _ :: _ => false

namespace Folded

/-- Without what would go on with a chain, an element has lost both directives that do. -/
theorem dropStray_eq (e : Element) : dropStray e = ((e.without "else-if").without "else", e.elses) := by
  have helse : (e.without "else-if").directive "else" = e.directive "else" := e.directive_without_of_ne (by decide)
  unfold dropStray Element.elses
  simp only [List.foldl_cons, List.foldl_nil, Element.take_eq]
  cases hif : e.directive "else-if" with
  | none =>
    rw [Element.without_of_directive_eq_none hif] at helse ⊢
    cases hel : e.directive "else" with
    | none => simp [hif, hel, Element.without_of_directive_eq_none hel]
    | some d => simp [hif, hel]
  | some d =>
    cases hel : e.directive "else" with
    | none =>
      rw [hel] at helse
      simp [hif, hel, helse, Element.without_of_directive_eq_none helse]
    | some d' =>
      rw [hel] at helse
      simp [hif, hel, helse]

/-- An element that begins anew. -/
theorem enter_element (e : Element) (children : List Node) :
    enter (.element e children) =
      if e.isSlotTemplate then (none, [.element e children], [])
      else if e.starts then
        (some ⟨e.span, [(branch (e.without "if") children e.ifCondition).1], []⟩, [], (branch (e.without "if") children e.ifCondition).2)
      else
        (none, [(wrapLoop ((e.without "else-if").without "else") children).node],
          e.elses ++ (wrapLoop ((e.without "else-if").without "else") children).errors) := by
  cases hslot : e.isSlotTemplate with
  | true => simp [enter, hslot]
  | false =>
    cases hif : e.directive "if" with
    | none => simp [enter, hslot, hif, Element.take_eq, Element.starts, dropStray_eq]
    | some d => simp [enter, hslot, hif, Element.take_eq, Element.starts, Element.ifCondition]

/-- An element behind a chain. -/
theorem continues_element (p : Pending) (e : Element) (children : List Node) :
    continues p (.element e children) =
      if e.goesOn then
        some (⟨p.span.cover e.span, p.branches ++ [(branch (e.without e.elseName) children e.elseCondition).1], []⟩,
          (branch (e.without e.elseName) children e.elseCondition).2)
      else none := by
  cases hslot : e.isSlotTemplate with
  | true => simp [continues, hslot, Element.goesOn]
  | false =>
    cases hif : e.directive "else-if" with
    | some d => simp [continues, hslot, hif, Element.take_eq, Element.goesOn, Element.elseName, Element.elseCondition]
    | none =>
      cases hel : e.directive "else" with
      | some d => simp [continues, hslot, hif, hel, Element.take_eq, Element.goesOn, Element.elseName, Element.elseCondition]
      | none => simp [continues, hslot, hif, hel, Element.take_eq, Element.goesOn]

/-- A node that begins anew leaves a chain open, or not. -/
theorem isSome_enter (n : Node) : (enter n).1.isSome = n.chains false := by
  cases n with
  | element e children =>
    rw [enter_element, Node.chains, Element.isBranch]
    cases hslot : e.isSlotTemplate with
    | true => simp [Element.starts, hslot]
    | false => cases e.starts <;> rfl
  | text | comment | interpolation | chain | loop => rfl

/-- A chain that a node begins has no comments behind it. -/
theorem comments_enter {n : Node} {p : Pending} (h : (enter n).1 = some p) : p.comments = [] := by
  cases n with
  | element e children =>
    rw [enter_element] at h
    split at h
    · cases h
    · split at h
      · obtain rfl := Option.some.inj h
        rfl
      · cases h
  | text | comment | interpolation | chain | loop => cases h

/-! ## Linking -/

theorem link_begins (f : Folded) (fs : List Folded) :
    link none (f :: fs) = ((enter f.node).2.1 ++ (link (enter f.node).1 fs).1, f.errors ++ (enter f.node).2.2 ++ (link (enter f.node).1 fs).2) := by
  rw [link]

theorem link_goesOn {p : Pending} {f : Folded} {x : Pending × List ParseError} (h : continues p f.node = some x) (fs : List Folded) :
    link (some p) (f :: fs) = ((link (some x.1) fs).1, f.errors ++ x.2 ++ (link (some x.1) fs).2) := by
  rw [link, h]

/-- Where a chain does not go on, it is done, and the nodes behind it begin anew. -/
theorem link_stops {p : Pending} {f : Folded} (h : continues p f.node = none) (fs : List Folded) :
    link (some p) (f :: fs) = (p.nodes ++ (link none (f :: fs)).1, (link none (f :: fs)).2) := by
  rw [link_begins, link, h]
  simp only [List.append_assoc]

/-- Siblings are linked one after another: with no chain open before it a node begins anew; with one, it goes on with it, or the chain is
done. -/
theorem link_induction {R : Node → Folded → Prop} {P : Option Pending → List Node → List Folded → Prop} {ns : List Node} {fs : List Folded}
    (h : List.Forall₂ R ns fs) (ends : ∀ p, P p [] [])
    (begins : ∀ {n f ns fs}, R n f → P (enter f.node).1 ns fs → P none (n :: ns) (f :: fs))
    (goesOn : ∀ {p n f ns fs x}, R n f → continues p f.node = some x → P (some x.1) ns fs → P (some p) (n :: ns) (f :: fs))
    (stops : ∀ {p n f ns fs}, R n f → continues p f.node = none → P none (n :: ns) (f :: fs) → P (some p) (n :: ns) (f :: fs))
    (p : Option Pending) : P p ns fs := by
  induction h generalizing p with
  | nil => exact ends p
  | @cons n f ns fs hf hfs ih =>
    have hbegins : P none (n :: ns) (f :: fs) := begins hf (ih _)
    cases p with
    | none => exact hbegins
    | some p =>
      cases hx : continues p f.node with
      | some x => exact goesOn hf hx (ih _)
      | none => exact stops hf hx hbegins

end Folded

end Markup

end TypedSfc
